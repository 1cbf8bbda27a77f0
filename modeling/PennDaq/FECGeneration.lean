import Mathlib.Data.List.MinMax
import PennDaq.FECDocument

/-! FEC documents from an ECAL: `GenerateFECDocFromECAL` looks for the latest time of
each critical test and adds the tests of the rows to a document. -/
namespace PennDaq.FECGeneration
open Lib.CNumber
open Lib.JsonTree
open Lib.Steps
open LinkCalls MaskCalls
open ECALDocument
open FECDocument

def stampOf (testDoc : Node) : ℚ := getNumber (findMember testDoc "timestamp")

def timestampOf (testDoc : Node) : Int := toInt32 (stampOf testDoc)

def forSlot (crate slot : Int) (testDoc : Node) : Bool :=
  let config := findMember testDoc "config"
  intNumber (findMember config "crate_id") = crate && intNumber (findMember config "slot") = slot

/- `time` has an entry for each name of `testMap`. -/
abbrev Times := String → Int

def latestTime (crate slot : Int) (time : Times) (testDoc : Node) : Except Failure Times := do
  let testType ← used (getString (findMember testDoc "type"))
  return fun name =>
    if testType = name && forSlot crate slot testDoc && (time name = 0 || timestampOf testDoc > time name)
    then timestampOf testDoc else time name

def addRow (crate slot : Int) (time : Times) (b : Building) (testDoc : Node) : Except Failure Building := do
  let testType ← used (getString (findMember testDoc "type"))
  let b ← testMap.foldlM (fun b name =>
    if testType = name && (forSlot crate slot testDoc && timestampOf testDoc = time name)
    then addECALTestResults testDoc b else .ok b) b
  testMapNcrit.foldlM (fun b name =>
    if testType = name && forSlot crate slot testDoc
    then addECALTestResults testDoc b else .ok b) b

def testDocs (rows : List Node) : List Node := rows.map fun row => findMember row "value"

def generateOne (crate slot : Int) (doc : Json) (rows : List Node) : Except Failure Building := do
  let time ← (testDocs rows).foldlM (latestTime crate slot) fun _ => 0
  (testDocs rows).foldlM (addRow crate slot time) ⟨doc,fun _ => 0#32,fun _ => 0⟩

def Posted (b : Building) : Prop := ∀ k, b.counts k ≠ 0

instance (b : Building) : Decidable (Posted b) := inferInstanceAs (Decidable (∀ _, _))

structure Post where
  crate : Nat
  slot : Nat
  doc : Json

def generateSlot (generated : Nat → Nat → String) (ecalDoc : Node) (rows : List Node)
    (place : Nat × Nat) : Except Failure Building := do
  let doc ← createFECDBDoc place.1 place.2 (generated place.1 place.2) ecalDoc
  generateOne place.1 place.2 doc rows

def postOf (place : Nat × Nat) (b : Building) : List Post :=
  if Posted b then [⟨place.1,place.2,b.doc⟩] else []

def generateStep (generated : Nat → Nat → String) (ecalDoc : Node) (rows : List Node)
    (posts : List Post) (place : Nat × Nat) : Except Failure (List Post) := do
  let b ← generateSlot generated ecalDoc rows place
  return posts ++ postOf place b

def selection (crateMask : BitVec 32) (slotMasks : SlotMasks) : List (Nat × Nat) :=
  (selectedCrates crateMask).flatMap fun i => (slots (slotMasks i)).map fun j => (i,j)

def generateFECDocFromECAL (crateMask : BitVec 32) (slotMasks : SlotMasks)
    (generated : Nat → Nat → String) (ecalDoc ecalFullDoc : Node) : Except Failure (Option (List Post)) :=
  let rows := findMember ecalFullDoc "rows"
  if getNumMems rows = 0 then .ok none
  else ((selection crateMask slotMasks).foldlM (generateStep generated ecalDoc (loopOver rows)) []).map some

def isLatest (crate slot : Int) (docs : List Node) (testDoc : Node) : Bool :=
  forSlot crate slot testDoc && (typeOf testDoc ∈ testMap || typeOf testDoc ∈ testMapNcrit) &&
    docs.all fun other => !(forSlot crate slot other && typeOf other = typeOf testDoc) ||
      stampOf other ≤ stampOf testDoc

def latestDocs (crate slot : Int) (docs : List Node) : List Node :=
  docs.filter (isLatest crate slot docs)

/- The settings, the test ids and the bits are those of the latest documents, and all
the critical tests have to be there for a post. The order of members is left open. -/
structure FromLatest (crate slot : Int) (start : Json) (docs latest : List Node) (b : Building) : Prop where
  hw : ∃ startHw hw, findMember (some start) "hw" = some (.object startHw) ∧
    findMember (some b.doc) "hw" = some (.object hw) ∧
    hw.Perm (startHw ++ latest.flatMap fun d => (branchFor d).hw)
  tests : ∃ tests, findMember (some b.doc) "test" = some (.object tests) ∧ tests.Perm (latest.map entryOf)
  channel : findMember (some b.doc) "channel" = some (channelOf b.problems)
  problems : ∀ (ch : Fin 32) (bit : Nat), bit < 32 → (b.problems ch).getLsbD bit =
    latest.any fun d => (branchFor d).fails ch && (branchFor d).bit = bit
  posted : Posted b ↔ ∀ name ∈ testMap, ∃ d ∈ docs, forSlot crate slot d = true ∧ typeOf d = name

def Built (crate slot : Int) (generated : String) (ecalDoc : Node) (rows reordered : List Json)
    (b : Building) : Prop :=
  ∃ start, createFECDBDoc crate slot generated ecalDoc = .ok start ∧
    generateOne crate slot start (reordered.map some) = .ok b ∧
    FromLatest crate slot start (testDocs (rows.map some)) (latestDocs crate slot (testDocs (rows.map some))) b

def TakesLatest (crateMask : BitVec 32) (slotMasks : SlotMasks) (generated : Nat → Nat → String)
    (ecalDoc : Node) (rows : List Json) : Prop :=
  ∀ reordered : List Json, reordered.Perm rows → ∀ ecalFullDoc,
    findMember ecalFullDoc "rows" = some (.array reordered) →
    ∃ (posts : Option (List Post)) (built : Nat × Nat → Building),
      generateFECDocFromECAL crateMask slotMasks generated ecalDoc ecalFullDoc = .ok posts ∧
      posts.getD [] = (selection crateMask slotMasks).flatMap (fun place => postOf place (built place)) ∧
      ∀ place ∈ selection crateMask slotMasks,
        Built place.1 place.2 (generated place.1 place.2) ecalDoc rows reordered (built place)

/- What the programs put in each row. The times of a type are whole seconds, and they
are distinct, as are the ids. -/
structure ValidRows (crate slot : Int) (docs : List Node) : Prop where
  typed : ∀ d ∈ docs, ∃ type, getString (findMember d "type") = some type
  identified : ∀ d ∈ docs, Identified d
  stamped : ∀ d ∈ docs, ∃ seconds : ℕ, stampOf d = seconds
  distinct : docs.Pairwise fun d e => forSlot crate slot d = true → forSlot crate slot e = true →
    typeOf d = typeOf e → stampOf d ≠ stampOf e ∧
      getString (findMember d "_id") ≠ getString (findMember e "_id")

def ofType (crate slot : Int) (name : String) (docs : List Node) : List Node :=
  docs.filter fun d => forSlot crate slot d && typeOf d = name

/- No test that is not critical was run again, and no critical one at a time from 2^31 on. -/
structure RunOnce (crate slot : Int) (docs : List Node) : Prop where
  others : ∀ name ∈ testMapNcrit, (ofType crate slot name docs).length ≤ 1
  critical : ∀ name ∈ testMap, (ofType crate slot name docs).length ≤ 1 ∨
    ∀ d ∈ ofType crate slot name docs, stampOf d < 2147483648

theorem loopOnce (names : List String) (once : names.Nodup) (type : String) (add : String → Bool)
    (step : Building → Except Failure Building) (b : Building) :
    names.foldlM (fun b name => if type = name && add name then step b else .ok b) b =
      if type ∈ names ∧ add type = true then step b else .ok b := by
  induction names generalizing b with
  | nil => simp; rfl
  | cons name later ih =>
    obtain ⟨fresh, once'⟩ := List.nodup_cons.mp once
    rw [List.foldlM_cons]
    by_cases same : type = name
    · subst same
      have rest (b : Building) := ih once' b
      simp only [fresh, false_and, if_false] at rest
      simp only [rest]
      cases h : add type with
      | false => simp [bind, Except.bind]
      | true =>
        simp only [decide_true, Bool.and_true, List.mem_cons, true_or, and_true, if_true]
        cases step b <;> rfl
    · simp only [same, decide_false, Bool.false_and, Bool.false_eq_true, if_false, List.mem_cons, false_or]
      exact ih once' b

def chosen (crate slot : Int) (time : Times) (testDoc : Node) : Bool :=
  forSlot crate slot testDoc && (typeOf testDoc ∈ testMap && timestampOf testDoc = time (typeOf testDoc) ||
    typeOf testDoc ∈ testMapNcrit)

theorem typeFound {testDoc : Node} {type : String} (typed : getString (findMember testDoc "type") = some type) :
    typeOf testDoc = type := by
  rw [typeOf, typed]
  rfl

theorem notCritical {name : String} : name ∈ testMap → name ∉ testMapNcrit := by
  have disjoint : ∀ name ∈ testMap, name ∉ testMapNcrit := by decide
  exact disjoint name

theorem addRowChosen {crate slot : Int} {time : Times} {testDoc : Node}
    (typed : ∃ type, getString (findMember testDoc "type") = some type) (b : Building) :
    addRow crate slot time b testDoc =
      if chosen crate slot time testDoc then addECALTestResults testDoc b else .ok b := by
  obtain ⟨type, typed⟩ := typed
  have apart : type ∈ testMap → type ∉ testMapNcrit := notCritical
  have critical (b : Building) := loopOnce testMap (by decide) type
    (fun name => forSlot crate slot testDoc && timestampOf testDoc = time name)
    (addECALTestResults testDoc) b
  have other (b : Building) := loopOnce testMapNcrit (by decide) type
    (fun _ => forSlot crate slot testDoc) (addECALTestResults testDoc) b
  rw [addRow, typed, chosen, typeFound typed]
  simp only [used, bind, Except.bind] at critical other ⊢
  simp only [critical, other]
  cases forSlot crate slot testDoc with
  | false => simp
  | true =>
    by_cases first : type ∈ testMap
    · simp only [first, apart first, true_and, Bool.true_and, false_and, if_false, decide_true,
        decide_false, Bool.or_false, decide_eq_true_eq]
      by_cases now : timestampOf testDoc = time type
      · simp only [if_pos now]
        cases addECALTestResults testDoc b <;> rfl
      · simp only [if_neg now]
    · simp [first]

theorem addRows {crate slot : Int} {time : Times} {docs : List Node}
    (typed : ∀ d ∈ docs, ∃ type, getString (findMember d "type") = some type) (b : Building) :
    docs.foldlM (addRow crate slot time) b = addAll (docs.filter (chosen crate slot time)) b := by
  induction docs generalizing b with
  | nil => rfl
  | cons d later ih =>
    have rest (b : Building) := ih (fun d mem => typed d (List.mem_cons_of_mem _ mem)) b
    rw [List.foldlM_cons, addRowChosen (typed d List.mem_cons_self)]
    cases h : chosen crate slot time d with
    | false => simpa [List.filter_cons, h, bind, Except.bind] using rest b
    | true =>
      rw [List.filter_cons, if_pos h, addAll, List.foldlM_cons]
      simp only [rest, if_true]
      rfl

def laterTime (time stamp : Int) : Int := if time = 0 ∨ stamp > time then stamp else time

def timeOver (start : Int) (stamps : List Int) : Int := stamps.foldl laterTime start

theorem timeOverGrows {stamps : List Int} (counted : ∀ stamp ∈ stamps, 0 ≤ stamp) {start : Int}
    (positive : 0 ≤ start) : start ≤ timeOver start stamps ∧ (∀ stamp ∈ stamps, stamp ≤ timeOver start stamps) ∧
      (timeOver start stamps = start ∨ timeOver start stamps ∈ stamps) := by
  induction stamps generalizing start with
  | nil => exact ⟨Int.le_refl _, by simp, .inl rfl⟩
  | cons stamp later ih =>
    rw [List.forall_mem_cons] at counted
    have step : start ≤ laterTime start stamp ∧ stamp ≤ laterTime start stamp ∧
        (laterTime start stamp = start ∨ laterTime start stamp = stamp) := by
      unfold laterTime
      split <;> omega
    obtain ⟨grows, bound, attained⟩ := ih counted.2 (Int.le_trans positive step.1)
    refine ⟨Int.le_trans step.1 grows, List.forall_mem_cons.mpr ⟨Int.le_trans step.2.1 grows,bound⟩, ?_⟩
    rcases attained with same | found
    · exact step.2.2.imp same.trans fun taken => same.trans taken ▸ List.mem_cons_self
    · exact .inr (List.mem_cons_of_mem _ found)

theorem timeOverSame {stamps : List Int} {stamp : Int} (same : ∀ other ∈ stamps, other = stamp)
    (some : stamps ≠ []) : timeOver 0 stamps = stamp := by
  have stays (later : List Int) (same : ∀ other ∈ later, other = stamp) : timeOver stamp later = stamp := by
    induction later with
    | nil => rfl
    | cons other later ih =>
      rw [List.forall_mem_cons] at same
      rw [timeOver, List.foldl_cons, same.1, laterTime, ite_self]
      exact ih same.2
  cases stamps with
  | nil => exact absurd rfl some
  | cons first later =>
    rw [List.forall_mem_cons] at same
    rw [timeOver, List.foldl_cons, laterTime, if_pos (.inl rfl), same.1]
    exact stays later same.2

theorem timeOverLast (start : Int) (stamps : List Int) {last : Int} (counted : 0 ≤ last) :
    0 ≤ timeOver start (stamps ++ [last]) := by
  rw [timeOver, List.foldl_append, List.foldl_cons, List.foldl_nil, laterTime]
  split <;> omega

section
variable {crate slot : Int}

def timeOf (crate slot : Int) (docs : List Node) : Times := fun name =>
  timeOver 0 ((ofType crate slot name docs).map timestampOf)

theorem latestTimes {docs : List Node} (typed : ∀ d ∈ docs, ∃ type, getString (findMember d "type") = some type)
    (start : Times) : docs.foldlM (latestTime crate slot) start =
      .ok fun name => timeOver (start name) ((ofType crate slot name docs).map timestampOf) := by
  induction docs generalizing start with
  | nil => rfl
  | cons d later ih =>
    rw [List.forall_mem_cons] at typed
    obtain ⟨⟨type, found⟩, typed⟩ := typed
    rw [List.foldlM_cons, latestTime, found]
    refine (ih typed _).trans (congrArg Except.ok (funext fun name => ?_))
    rw [ofType, ofType, List.filter_cons, typeFound found]
    by_cases here : (forSlot crate slot d && decide (type = name)) = true
    · have mine : (decide (type = name) && forSlot crate slot d) = true := by rwa [Bool.and_comm]
      rw [if_pos here, List.map_cons, mine, Bool.true_and]
      simp only [timeOver, List.foldl_cons, laterTime, Bool.or_eq_true, decide_eq_true_eq]
    · have other : (decide (type = name) && forSlot crate slot d) = false := by
        rw [Bool.and_comm]
        exact Bool.not_eq_true _ ▸ here
      rw [if_neg here, other, Bool.false_and, if_neg Bool.false_ne_true]

variable {docs : List Node}

theorem memOfType {name : String} {d : Node} : d ∈ ofType crate slot name docs ↔
    d ∈ docs ∧ forSlot crate slot d = true ∧ typeOf d = name := by
  simp [ofType]

theorem isLatestIff {d : Node} :
    isLatest crate slot docs d = true ↔ forSlot crate slot d = true ∧
      (typeOf d ∈ testMap ∨ typeOf d ∈ testMapNcrit) ∧
      ∀ e ∈ ofType crate slot (typeOf d) docs, stampOf e ≤ stampOf d := by
  simp only [isLatest, Bool.and_eq_true, Bool.or_eq_true, decide_eq_true_eq, List.all_eq_true,
    Bool.not_eq_true', and_assoc, memOfType, and_imp]
  refine and_congr_right fun _ => and_congr_right fun _ => forall_congr' fun e => imp_congr_right fun _ => ?_
  cases forSlot crate slot e <;> simp [imp_iff_not_or]

theorem chosenIff {time : Times} {d : Node} :
    chosen crate slot time d = true ↔ forSlot crate slot d = true ∧
      (typeOf d ∈ testMap ∧ timestampOf d = time (typeOf d) ∨ typeOf d ∈ testMapNcrit) := by
  simp [chosen]

theorem stampCast {d : Node} (stamped : ∃ seconds : ℕ, stampOf d = seconds) :
    stampOf d < 2147483648 ∧ timestampOf d = stampOf d ∧ 0 ≤ timestampOf d ∨
      2147483648 ≤ stampOf d ∧ timestampOf d = -2147483648 := by
  obtain ⟨seconds, stamp⟩ := stamped
  rcases Nat.lt_or_ge seconds 2147483648 with small | large
  · refine .inl ⟨by rw [stamp]; exact_mod_cast small, ?_, ?_⟩ <;> rw [timestampOf, stamp, toInt32Small small]
    · rfl
    · exact Int.natCast_nonneg _
  · exact .inr ⟨by rw [stamp]; exact_mod_cast large, by rw [timestampOf, stamp, toInt32Large large]⟩

theorem onlyOne {d e : Node} {name : String} (once : (ofType crate slot name docs).length ≤ 1)
    (mem : d ∈ ofType crate slot name docs) (mem' : e ∈ ofType crate slot name docs) : e = d := by
  obtain ⟨only, single⟩ := List.length_eq_one_iff.mp (Nat.le_antisymm once (List.length_pos_of_mem mem))
  rw [single, List.mem_singleton] at mem mem'
  exact mem'.trans mem.symm

theorem atLatestTime (stamped : ∀ d ∈ docs, ∃ seconds : ℕ, stampOf d = seconds) {name : String}
    (critical : (ofType crate slot name docs).length ≤ 1 ∨
      ∀ d ∈ ofType crate slot name docs, stampOf d < 2147483648)
    {d : Node} (mem : d ∈ ofType crate slot name docs) : timestampOf d = timeOf crate slot docs name ↔
      ∀ e ∈ ofType crate slot name docs, stampOf e ≤ stampOf d := by
  rcases critical with once | small
  · have only (e : Node) (mem' : e ∈ ofType crate slot name docs) : e = d := onlyOne once mem mem'
    refine iff_of_true ?_ fun e mem' => by rw [only e mem']
    refine (timeOverSame (fun stamp found => ?_) (by simpa using List.ne_nil_of_mem mem)).symm
    obtain ⟨e, mem', rfl⟩ := List.mem_map.mp found
    rw [only e mem']
  · have cast (e : Node) (mem' : e ∈ ofType crate slot name docs) :
        (timestampOf e : ℚ) = stampOf e ∧ 0 ≤ timestampOf e := by
      rcases stampCast (stamped e (memOfType.mp mem').1) with ⟨-, same, positive⟩ | ⟨large, -⟩
      · exact ⟨same,positive⟩
      · exact absurd (small e mem') (not_lt.mpr large)
    have counted : ∀ stamp ∈ (ofType crate slot name docs).map timestampOf, 0 ≤ stamp := by
      intro stamp found
      obtain ⟨e, mem', rfl⟩ := List.mem_map.mp found
      exact (cast e mem').2
    obtain ⟨-, bound, attained⟩ := timeOverGrows counted (Int.le_refl 0)
    have order (e : Node) (mem' : e ∈ ofType crate slot name docs) :
        stampOf e ≤ stampOf d ↔ timestampOf e ≤ timestampOf d := by
      rw [← (cast e mem').1, ← (cast d mem).1, Int.cast_le]
    rw [timeOf]
    constructor
    · intro same e mem'
      rw [order e mem', same]
      exact bound _ (List.mem_map_of_mem mem')
    · intro last
      refine Int.le_antisymm (bound _ (List.mem_map_of_mem mem)) ?_
      rcases attained with zero | found
      · rw [zero]
        exact (cast d mem).2
      · obtain ⟨e, mem', stamp⟩ := List.mem_map.mp found
        rw [← stamp]
        exact (order e mem').mp (last e mem')

theorem chosenLatest (stamped : ∀ d ∈ docs, ∃ seconds : ℕ, stampOf d = seconds)
    (once : RunOnce crate slot docs) {d : Node} (mem : d ∈ docs) :
    chosen crate slot (timeOf crate slot docs) d = isLatest crate slot docs d := by
  rw [Bool.eq_iff_iff, chosenIff, isLatestIff]
  refine and_congr_right fun mine => ?_
  have inside : d ∈ ofType crate slot (typeOf d) docs := memOfType.mpr ⟨mem,mine,rfl⟩
  constructor
  · rintro (⟨critical, now⟩ | other)
    · exact ⟨.inl critical, (atLatestTime stamped (once.critical _ critical) inside).mp now⟩
    · refine ⟨.inr other, fun e mem' => ?_⟩
      rw [onlyOne (once.others _ other) inside mem']
  · rintro ⟨critical | other, last⟩
    · exact .inl ⟨critical, (atLatestTime stamped (once.critical _ critical) inside).mpr last⟩
    · exact .inr other

end

theorem countsOther {type : String} (other : type ∉ testMap) (d : Node) : (branchOf type d).counts = none := by
  simp only [testMap, List.mem_cons, List.not_mem_nil, or_false, not_or] at other
  obtain ⟨cbal, zdisc, ttot, gtvalid, noise⟩ := other
  rw [branchOf, if_neg cbal, if_neg zdisc, if_neg ttot, if_neg gtvalid, if_neg noise]
  split_ifs <;> rfl

theorem branchCounts (type : String) (d : Node) (k : Fin 5) :
    (branchOf type d).counts = some k ↔ type = testMap[k] := by
  by_cases critical : type ∈ testMap
  · have position (i : Fin 5) : (some i = some k) ↔ testMap[i] = testMap[k] := by
      revert i k
      decide
    simp only [testMap, List.mem_cons, List.not_mem_nil, or_false] at critical
    rcases critical with rfl | rfl | rfl | rfl | rfl
    · exact position 0
    · exact position 1
    · exact position 2
    · exact position 3
    · exact position 4
  · rw [countsOther critical]
    exact iff_of_false (by simp) fun same => critical (same ▸ List.getElem_mem _)

theorem recordedBits (docs : List Node) (problems : Problems) (ch : Fin 32) {bit : Nat} (inside : bit < 32) :
    ((docs.foldl (fun problems d => record (branchFor d) problems) problems) ch).getLsbD bit =
      ((problems ch).getLsbD bit ||
        docs.any fun d => (branchFor d).fails ch && (branchFor d).bit = bit) := by
  induction docs generalizing problems with
  | nil => simp
  | cons d later ih =>
    rw [List.foldl_cons, ih, List.any_cons, ← Bool.or_assoc]
    congr 1
    rw [record]
    cases (branchFor d).fails ch with
    | false => simp
    | true => simp [Lib.Mask.oneBit inside, eq_comm]

section
variable {crate slot : Int} {start : Json} {startHw : Members}

def chosenDocs (crate slot : Int) (docs : List Node) : List Node :=
  docs.filter (chosen crate slot (timeOf crate slot docs))

theorem generatedBy {rows : List Node} (shown : Shows ⟨start,fun _ => 0#32,fun _ => 0⟩ startHw [])
    (valid : ValidRows crate slot (testDocs rows)) :
    ∃ b, generateOne crate slot start rows = .ok b ∧
      Shows b (startHw ++ (chosenDocs crate slot (testDocs rows)).flatMap fun d => (branchFor d).hw)
        ((chosenDocs crate slot (testDocs rows)).map entryOf) ∧
      Added (chosenDocs crate slot (testDocs rows)) ⟨start,fun _ => 0#32,fun _ => 0⟩ b := by
  obtain ⟨b, run, shows', added⟩ := addAllSpec (chosenDocs crate slot (testDocs rows)) shown
    fun d mem => valid.identified d (List.mem_of_mem_filter mem)
  refine ⟨b, ?_, shows', added⟩
  rw [generateOne, latestTimes valid.typed]
  exact (addRows valid.typed _).trans run

theorem fromLatest {docs added latest : List Node} {b : Building} (same : added.Perm latest)
    (shown : Shows ⟨start,fun _ => 0#32,fun _ => 0⟩ startHw [])
    (shows' : Shows b (startHw ++ added.flatMap fun d => (branchFor d).hw) (added.map entryOf))
    (recorded : Added added ⟨start,fun _ => 0#32,fun _ => 0⟩ b)
    (present : ∀ name ∈ testMap, (∃ d ∈ added, typeOf d = name) ↔
      ∃ d ∈ docs, forSlot crate slot d = true ∧ typeOf d = name) :
    FromLatest crate slot start docs latest b := by
  refine ⟨⟨_, _, shown.hw, shows'.hw, ?_⟩, ⟨_, shows'.tests, same.map _⟩, shows'.channel, ?_, ?_⟩
  · exact (same.flatMap_right _).append_left _
  · intro ch bit inside
    rw [recorded.problems, recordedBits _ _ _ inside, same.any_eq]
    simp
  · have counted (k : Fin 5) : b.counts k ≠ 0 ↔ ∃ d ∈ added, typeOf d = testMap[k] := by
      have total := recorded.counts k
      simp only [Nat.zero_add] at total
      rw [total, ← Nat.pos_iff_ne_zero, List.countP_pos_iff]
      simp only [branchFor, branchCounts, decide_eq_true_eq]
    rw [Posted]
    constructor
    · intro all name mem
      obtain ⟨k, inside, here⟩ := List.getElem_of_mem mem
      exact (present name mem).mp (here ▸ (counted ⟨k,inside⟩).mp (all ⟨k,inside⟩))
    · intro all k
      exact (counted k).mpr ((present _ (List.getElem_mem _)).mpr (all _ (List.getElem_mem _)))

theorem validPerm {docs reordered : List Node} (order : reordered.Perm docs) (valid : ValidRows crate slot docs) :
    ValidRows crate slot reordered := by
  refine ⟨fun d mem => valid.typed d (order.mem_iff.mp mem), fun d mem => valid.identified d (order.mem_iff.mp mem),
    fun d mem => valid.stamped d (order.mem_iff.mp mem), (order.pairwise_iff ?_).mpr valid.distinct⟩
  exact fun apart mine mine' named => (apart mine' mine named.symm).imp Ne.symm Ne.symm

theorem latestExists {docs : List Node} {name : String} (known : name ∈ testMap ∨ name ∈ testMapNcrit)
    {d : Node} (mem : d ∈ ofType crate slot name docs) :
    ∃ last ∈ ofType crate slot name docs, isLatest crate slot docs last = true := by
  cases found : (ofType crate slot name docs).argmax stampOf with
  | none => exact absurd (List.argmax_eq_none.mp found) (List.ne_nil_of_mem mem)
  | some last =>
    have inside := List.argmax_mem found
    obtain ⟨-, mine, rfl⟩ := memOfType.mp inside
    exact ⟨last, inside, isLatestIff.mpr ⟨mine, known, fun e mem' => List.le_of_mem_argmax mem' found⟩⟩

theorem testDocsPerm {rows reordered : List Json} (order : reordered.Perm rows) :
    (testDocs (reordered.map some)).Perm (testDocs (rows.map some)) := (order.map _).map _

def TakesOne (crate slot : Int) (start : Json) (rows : List Json) : Prop :=
  ∀ reordered : List Json, reordered.Perm rows → ∃ b, generateOne crate slot start (reordered.map some) = .ok b ∧
    FromLatest crate slot start (testDocs (rows.map some)) (latestDocs crate slot (testDocs (rows.map some))) b

section
variable {rows : List Json} (shown : Shows ⟨start,fun _ => 0#32,fun _ => 0⟩ startHw [])
  (valid : ValidRows crate slot (testDocs (rows.map some)))
include shown valid

theorem takesOne (once : RunOnce crate slot (testDocs (rows.map some))) : TakesOne crate slot start rows := by
  intro reordered order
  have docs := testDocsPerm order
  have valid' := validPerm docs valid
  obtain ⟨b, run, shows', added⟩ := generatedBy shown valid'
  have once' : RunOnce crate slot (testDocs (reordered.map some)) := by
    have length (name : String) := ((docs.filter fun d => forSlot crate slot d && typeOf d = name).length_eq)
    refine ⟨fun name other => (length name).trans_le (once.others name other), fun name critical => ?_⟩
    refine (once.critical name critical).imp (length name).trans_le fun small d mem => small d ?_
    exact (docs.filter _).mem_iff.mp mem
  have same : isLatest crate slot (testDocs (reordered.map some)) = isLatest crate slot (testDocs (rows.map some)) := by
    funext d
    rw [isLatest, isLatest, docs.all_eq]
  have chosenSame : chosenDocs crate slot (testDocs (reordered.map some)) =
      latestDocs crate slot (testDocs (reordered.map some)) :=
    List.filter_congr fun d mem => chosenLatest valid'.stamped once' mem
  refine ⟨b, run, fromLatest ?_ shown shows' added fun name critical => ?_⟩
  · rw [chosenSame, latestDocs, latestDocs, same]
    exact docs.filter _
  · rw [chosenSame]
    constructor
    · rintro ⟨d, mem, named⟩
      obtain ⟨mem, last⟩ := List.mem_filter.mp mem
      exact ⟨d, docs.mem_iff.mp mem, (isLatestIff.mp last).1, named⟩
    · rintro ⟨d, mem, mine, named⟩
      obtain ⟨last, inside, isLast⟩ := latestExists (.inl critical)
        (memOfType.mpr ⟨docs.mem_iff.mpr mem,mine,named⟩)
      obtain ⟨mem', -, named'⟩ := memOfType.mp inside
      exact ⟨last, List.mem_filter.mpr ⟨mem',isLast⟩, named'⟩

omit shown in
theorem sameEntry {d e : Node} (mem : d ∈ testDocs (rows.map some)) (mem' : e ∈ testDocs (rows.map some))
    (mine : forSlot crate slot d = true) (mine' : forSlot crate slot e = true) (same : entryOf d = entryOf e) :
    d = e := by
  by_contra apart
  have symmetric : Std.Symm fun d e : Node => forSlot crate slot d = true → forSlot crate slot e = true →
      typeOf d = typeOf e → stampOf d ≠ stampOf e ∧ getString (findMember d "_id") ≠ getString (findMember e "_id") :=
    ⟨fun d e apart mine mine' named => (apart mine' mine named.symm).imp Ne.symm Ne.symm⟩
  have different := valid.distinct.forall mem mem' apart mine mine' (congrArg Prod.fst same)
  obtain ⟨id, found⟩ := valid.identified d mem
  obtain ⟨id', found'⟩ := valid.identified e mem'
  have ids := congrArg Prod.snd same
  simp only [entryOf, found, found', Option.getD_some, Json.object.injEq, List.cons.injEq, Prod.mk.injEq,
    Json.string.injEq, true_and, and_true] at ids
  exact different.2 (by rw [found, found', ids])

/- Every order of the rows picks exactly the latest documents. -/
theorem chosenExact (takes : TakesOne crate slot start rows) {reordered : List Json} (order : reordered.Perm rows)
    {d : Node} (mem : d ∈ testDocs (rows.map some)) :
    chosen crate slot (timeOf crate slot (testDocs (reordered.map some))) d = true ↔
      isLatest crate slot (testDocs (rows.map some)) d = true := by
  have docs := testDocsPerm order
  obtain ⟨b, run, shows', -⟩ := generatedBy shown (validPerm docs valid)
  obtain ⟨b', run', from'⟩ := takes reordered order
  obtain rfl : b = b' := Except.ok.inj (run.symm.trans run')
  obtain ⟨tests, found, entries⟩ := from'.tests
  have listed : (chosenDocs crate slot (testDocs (reordered.map some))).map entryOf = tests := by
    have same := shows'.tests.symm.trans found
    simpa using same
  subst listed
  constructor
  · intro isChosen
    have inside : d ∈ chosenDocs crate slot (testDocs (reordered.map some)) :=
      List.mem_filter.mpr ⟨docs.mem_iff.mpr mem,isChosen⟩
    obtain ⟨last, mem', same⟩ := List.mem_map.mp (entries.mem_iff.mp (List.mem_map_of_mem inside))
    obtain ⟨mem', isLast⟩ := List.mem_filter.mp mem'
    exact sameEntry valid mem' mem (isLatestIff.mp isLast).1 (chosenIff.mp isChosen).1 same ▸ isLast
  · intro isLast
    have inside : d ∈ latestDocs crate slot (testDocs (rows.map some)) := List.mem_filter.mpr ⟨mem,isLast⟩
    obtain ⟨picked, mem', same⟩ := List.mem_map.mp (entries.mem_iff.mpr (List.mem_map_of_mem inside))
    obtain ⟨mem', isChosen⟩ := List.mem_filter.mp mem'
    exact sameEntry valid (docs.mem_iff.mp mem') mem (chosenIff.mp isChosen).1 (isLatestIff.mp isLast).1 same ▸ isChosen

omit shown in
theorem twoRuns {name : String} (more : ¬(ofType crate slot name (testDocs (rows.map some))).length ≤ 1) :
    ∃ d ∈ ofType crate slot name (testDocs (rows.map some)),
      ∃ e ∈ ofType crate slot name (testDocs (rows.map some)), stampOf d < stampOf e := by
  have apart := valid.distinct.sublist
    (List.filter_sublist (p := fun d => forSlot crate slot d && typeOf d = name))
  have found := fun d => (@memOfType crate slot (testDocs (rows.map some)) name d).mp
  rw [← ofType] at apart
  cases h : ofType crate slot name (testDocs (rows.map some)) with
  | nil => simp [h] at more
  | cons d later =>
    cases later with
    | nil => simp [h] at more
    | cons e later =>
      rw [h] at apart found
      obtain ⟨-, mine, named⟩ := found d (by simp)
      obtain ⟨-, mine', named'⟩ := found e (by simp)
      have different := ((List.pairwise_cons.mp apart).1 e (by simp) mine mine' (named.trans named'.symm)).1
      rcases lt_or_gt_of_ne different with less | greater
      · exact ⟨d, by simp, e, by simp, less⟩
      · exact ⟨e, by simp, d, by simp, greater⟩

theorem othersOnce (takes : TakesOne crate slot start rows) {name : String} (other : name ∈ testMapNcrit) :
    (ofType crate slot name (testDocs (rows.map some))).length ≤ 1 := by
  by_contra more
  obtain ⟨d, mem, e, mem', less⟩ := twoRuns valid more
  obtain ⟨inside, mine, rfl⟩ := memOfType.mp mem
  have last := (chosenExact shown valid takes (List.Perm.refl rows) inside).mp (chosenIff.mpr ⟨mine,.inr other⟩)
  exact absurd ((isLatestIff.mp last).2.2 e mem') (not_le.mpr less)

omit shown in
theorem wrappedStamp {d : Node} (inside : d ∈ testDocs (rows.map some)) (large : 2147483648 ≤ stampOf d) :
    timestampOf d = -2147483648 := by
  rcases stampCast (valid.stamped d inside) with ⟨under, -⟩ | ⟨-, negative⟩
  · exact absurd under (not_lt.mpr large)
  · exact negative

/- With its row at the end the stamp `e` is the time of the test, and a wrapped one is none
that is found again. -/
theorem smallStamps (takes : TakesOne crate slot start rows) {name : String} (critical : name ∈ testMap) {e : Node}
    (mem : e ∈ ofType crate slot name (testDocs (rows.map some))) (less : stampOf e < 2147483648) :
    ∀ d ∈ ofType crate slot name (testDocs (rows.map some)), stampOf d < 2147483648 := by
  intro late lateIn
  by_contra large
  obtain ⟨last, mem', isLast⟩ := latestExists (.inl critical) lateIn
  obtain ⟨inside, mine, rfl⟩ := memOfType.mp mem'
  have negative := wrappedStamp valid inside ((not_lt.mp large).trans ((isLatestIff.mp isLast).2.2 late lateIn))
  obtain ⟨inside', mine', named⟩ := memOfType.mp mem
  have positive : 0 ≤ timestampOf e := by
    rcases stampCast (valid.stamped e inside') with ⟨-, -, positive⟩ | ⟨large, -⟩
    · exact positive
    · exact absurd less (not_lt.mpr large)
  obtain ⟨node, listed, value⟩ := List.mem_map.mp inside'
  obtain ⟨row, mem'', rfl⟩ := List.mem_map.mp listed
  obtain ⟨before, behind, split⟩ := List.append_of_mem mem''
  have order : (before ++ behind ++ [row]).Perm rows := by
    rw [split]
    exact (List.perm_append_singleton row _).trans List.perm_middle.symm
  have chosenLast := (chosenExact shown valid takes order inside).mpr isLast
  obtain ⟨-, ⟨-, now⟩ | other⟩ := chosenIff.mp chosenLast
  · have docs : testDocs ((before ++ behind ++ [row]).map some) = testDocs ((before ++ behind).map some) ++ [e] := by
      simp [testDocs, value]
    have rowsOf : ofType crate slot (typeOf last) (testDocs ((before ++ behind ++ [row]).map some)) =
        ofType crate slot (typeOf last) (testDocs ((before ++ behind).map some)) ++ [e] := by
      rw [docs, ofType, List.filter_append, List.filter_singleton, mine', named]
      simp [ofType]
    rw [timeOf, rowsOf, List.map_append, List.map_singleton] at now
    have counted := timeOverLast 0 ((ofType crate slot (typeOf last)
      (testDocs ((before ++ behind).map some))).map timestampOf) positive
    omega
  · exact notCritical critical other

/- Wrapped stamps are all the same, so that an earlier document would be chosen, too. -/
theorem someSmall (takes : TakesOne crate slot start rows) {name : String} (critical : name ∈ testMap)
    (more : ¬(ofType crate slot name (testDocs (rows.map some))).length ≤ 1) :
    ∃ e ∈ ofType crate slot name (testDocs (rows.map some)), stampOf e < 2147483648 := by
  by_contra none'
  push Not at none'
  have cast (d : Node) (mem : d ∈ ofType crate slot name (testDocs (rows.map some))) : timestampOf d = -2147483648 :=
    wrappedStamp valid (memOfType.mp mem).1 (none' d mem)
  obtain ⟨d, mem, e, mem', less⟩ := twoRuns valid more
  obtain ⟨inside, mine, rfl⟩ := memOfType.mp mem
  have time : timeOf crate slot (testDocs (rows.map some)) (typeOf d) = -2147483648 := by
    refine timeOverSame (fun stamp found => ?_) (by simpa using List.ne_nil_of_mem mem)
    obtain ⟨other, mem'', rfl⟩ := List.mem_map.mp found
    exact cast other mem''
  have last := (chosenExact shown valid takes (List.Perm.refl rows) inside).mp
    (chosenIff.mpr ⟨mine,.inl ⟨critical,(cast d mem).trans time.symm⟩⟩)
  exact absurd ((isLatestIff.mp last).2.2 e mem') (not_le.mpr less)

theorem criticalOnce (takes : TakesOne crate slot start rows) {name : String} (critical : name ∈ testMap) :
    (ofType crate slot name (testDocs (rows.map some))).length ≤ 1 ∨
      ∀ d ∈ ofType crate slot name (testDocs (rows.map some)), stampOf d < 2147483648 := by
  refine or_iff_not_imp_left.mpr fun more => ?_
  obtain ⟨e, mem, less⟩ := someSmall shown valid takes critical more
  exact smallStamps shown valid takes critical mem less

end

end

section
variable {generated : Nat → Nat → String} {ecalDoc : Node}

theorem generateSteps {rows : List Node} {built : Nat × Nat → Building} {places : List (Nat × Nat)}
    (runs : ∀ place ∈ places, generateSlot generated ecalDoc rows place = .ok (built place)) (before : List Post) :
    places.foldlM (generateStep generated ecalDoc rows) before =
      .ok (before ++ places.flatMap fun place => postOf place (built place)) := by
  induction places generalizing before with
  | nil => rw [List.flatMap_nil, List.append_nil]; rfl
  | cons place places ih =>
    rw [List.forall_mem_cons] at runs
    rw [List.foldlM_cons, generateStep, runs.1]
    refine (ih runs.2 _).trans ?_
    rw [List.flatMap_cons, List.append_assoc]

theorem generatedPosts {crateMask : BitVec 32} {slotMasks : SlotMasks} {ecalFullDoc : Node} {rows : List Json}
    (found : findMember ecalFullDoc "rows" = some (.array rows)) {built : Nat × Nat → Building}
    (runs : ∀ place ∈ selection crateMask slotMasks,
      generateSlot generated ecalDoc (rows.map some) place = .ok (built place)) :
    ∃ posts, generateFECDocFromECAL crateMask slotMasks generated ecalDoc ecalFullDoc = .ok posts ∧
      posts.getD [] = (selection crateMask slotMasks).flatMap fun place => postOf place (built place) := by
  rw [generateFECDocFromECAL, found]
  cases rows with
  | nil =>
    refine ⟨none, rfl, ?_⟩
    rw [Option.getD_none, eq_comm, List.flatMap_eq_nil_iff]
    intro place mem
    obtain ⟨start, -, done⟩ := bindOk.mp (runs place mem)
    rw [← Except.ok.inj done]
    exact if_neg fun posted => posted 0 rfl
  | cons row later =>
    have some' : getNumMems (some (.array (row::later))) ≠ 0 := by
      simp only [getNumMems, List.length_cons]
      omega
    simp only [if_neg some']
    rw [loopOverArray, generateSteps runs, List.nil_append]
    exact ⟨_, rfl, rfl⟩

theorem takesOneOf {crateMask : BitVec 32} {slotMasks : SlotMasks} {rows : List Json} {place : Nat × Nat}
    (mem : place ∈ selection crateMask slotMasks) {start : Json}
    (begun : createFECDBDoc place.1 place.2 (generated place.1 place.2) ecalDoc = .ok start)
    (takes : TakesLatest crateMask slotMasks generated ecalDoc rows) : TakesOne place.1 place.2 start rows := by
  intro reordered order
  obtain ⟨posts, built, -, -, all⟩ := takes reordered order (some (.object [("rows",.array reordered)])) rfl
  obtain ⟨start', begun', run, latest⟩ := all place mem
  obtain rfl : start = start' := Except.ok.inj (begun.symm.trans begun')
  exact ⟨built place, run, latest⟩

end

theorem latestTakenWhenOnce {crateMask : BitVec 32} {slotMasks : SlotMasks} {generated : Nat → Nat → String}
    {ecalDoc : Node} {rows : List Json}
    (created : ∀ place ∈ selection crateMask slotMasks,
      ∃ start, createFECDBDoc place.1 place.2 (generated place.1 place.2) ecalDoc = .ok start)
    (valid : ∀ place ∈ selection crateMask slotMasks, ValidRows place.1 place.2 (testDocs (rows.map some))) :
    TakesLatest crateMask slotMasks generated ecalDoc rows ↔
      ∀ place ∈ selection crateMask slotMasks, RunOnce place.1 place.2 (testDocs (rows.map some)) := by
  constructor
  · intro takes place mem
    obtain ⟨start, begun⟩ := created place mem
    obtain ⟨r, starts⟩ := createFECDBDocSpec begun
    have one := takesOneOf mem begun takes
    exact ⟨fun name => othersOnce starts.shows (valid place mem) one,
      fun name => criticalOnce starts.shows (valid place mem) one⟩
  · intro once reordered order ecalFullDoc found
    have each (place : Nat × Nat) : ∃ b, place ∈ selection crateMask slotMasks →
        Built place.1 place.2 (generated place.1 place.2) ecalDoc rows reordered b := by
      by_cases mem : place ∈ selection crateMask slotMasks
      · obtain ⟨start, begun⟩ := created place mem
        obtain ⟨r, starts⟩ := createFECDBDocSpec begun
        obtain ⟨b, run, latest⟩ := takesOne starts.shows (valid place mem) (once place mem) reordered order
        exact ⟨b, fun _ => ⟨start,begun,run,latest⟩⟩
      · exact ⟨⟨.null,fun _ => 0#32,fun _ => 0⟩, fun inside => absurd inside mem⟩
    choose built each using each
    have runs : ∀ place ∈ selection crateMask slotMasks,
        generateSlot generated ecalDoc (reordered.map some) place = .ok (built place) := by
      intro place mem
      obtain ⟨start, begun, run, -⟩ := each place mem
      exact bindOk.mpr ⟨start,begun,run⟩
    obtain ⟨posts, run, posted⟩ := generatedPosts found runs
    exact ⟨posts, built, run, posted, each⟩

structure SampleRun where
  seconds : Nat
  type : String
  id : String
  deriving DecidableEq

def sampleDoc (run : SampleRun) : Json :=
  .object [("_id",.string run.id),("type",.string run.type),("timestamp",ofNat run.seconds),
    ("config",.object [("crate_id",ofNat 2),("slot",ofNat 3)])]

def sampleRows (runs : List SampleRun) : List Json := runs.map fun run => .object [("value",sampleDoc run)]

def sampleRuns : List SampleRun :=
  [⟨100,"crate_cbal","a"⟩,⟨110,"zdisc","b"⟩,⟨120,"set_ttot","c"⟩,⟨130,"cmos_m_gtvalid","d"⟩,
    ⟨140,"find_noise_2","e"⟩,⟨145,"find_noise_2","f"⟩,⟨150,"ped_run","g"⟩]

def rerunPedestals : List SampleRun := sampleRuns ++ [⟨160,"ped_run","h"⟩]

def sampleMasks : SlotMasks := fun _ => 8#32

theorem sampleSelection : selection 4#32 sampleMasks = [(2,3)] := by decide

theorem sampleTestDocs (runs : List SampleRun) :
    testDocs ((sampleRows runs).map some) = runs.map fun run => some (sampleDoc run) := by
  rw [testDocs, sampleRows, List.map_map, List.map_map]
  rfl

theorem sampleValid {runs : List SampleRun}
    (distinct : runs.Pairwise fun a b => a.type = b.type → a.seconds ≠ b.seconds ∧ a.id ≠ b.id) :
    ValidRows 2 3 (testDocs ((sampleRows runs).map some)) := by
  rw [sampleTestDocs]
  refine ⟨?_, ?_, ?_, ?_⟩
  · intro d mem
    obtain ⟨run, -, rfl⟩ := List.mem_map.mp mem
    exact ⟨run.type, rfl⟩
  · intro d mem
    obtain ⟨run, -, rfl⟩ := List.mem_map.mp mem
    exact ⟨run.id, rfl⟩
  · intro d mem
    obtain ⟨run, -, rfl⟩ := List.mem_map.mp mem
    exact ⟨run.seconds, rfl⟩
  · rw [List.pairwise_map]
    refine distinct.imp fun apart _ _ named => ?_
    obtain ⟨seconds, ids⟩ := apart named
    exact ⟨fun same => seconds (Nat.cast_injective (R := ℚ) same), fun same => ids (Option.some.inj same)⟩

theorem sampleOfType (name : String) (runs : List SampleRun) :
    ofType 2 3 name (testDocs ((sampleRows runs).map some)) =
      (runs.filter fun run => run.type = name).map fun run => some (sampleDoc run) := by
  have mine (run : SampleRun) : forSlot 2 3 (some (sampleDoc run)) = true := by
    have two : intNumber (some (ofNat 2)) = 2 := truncateNat 2
    have three : intNumber (some (ofNat 3)) = 3 := truncateNat 3
    change (decide (intNumber (some (ofNat 2)) = 2) && decide (intNumber (some (ofNat 3)) = 3)) = true
    rw [two, three]
    rfl
  rw [sampleTestDocs, ofType, List.filter_map]
  simp only [Function.comp_def, mine, Bool.true_and]
  rfl

theorem sampleOnce {runs : List SampleRun}
    (once : ∀ name ∈ testMapNcrit, (runs.filter fun run => run.type = name).length ≤ 1)
    (early : ∀ run ∈ runs, run.seconds < 2147483648) : RunOnce 2 3 (testDocs ((sampleRows runs).map some)) := by
  refine ⟨fun name other => ?_, fun name _ => .inr fun d mem => ?_⟩
  · rw [sampleOfType, List.length_map]
    exact once name other
  · rw [sampleOfType] at mem
    obtain ⟨run, inside, rfl⟩ := List.mem_map.mp mem
    have small := early run (List.mem_of_mem_filter inside)
    change ((run.seconds : ℕ) : ℚ) < 2147483648
    exact_mod_cast small

def sampleStamp (_ _ : Nat) : String := "2013-01-02T00:00:00"

theorem sampleStart (place : Nat × Nat) (mem : place ∈ selection 4#32 sampleMasks) :
    ∃ start, createFECDBDoc place.1 place.2 (sampleStamp place.1 place.2) (some sampleECAL) = .ok start := by
  rw [sampleSelection, List.mem_singleton] at mem
  subst mem
  exact sampleCreated

theorem latestTakenSample : TakesLatest 4#32 sampleMasks sampleStamp (some sampleECAL) (sampleRows sampleRuns) := by
  have valid : ∀ place ∈ selection 4#32 sampleMasks,
      ValidRows place.1 place.2 (testDocs ((sampleRows sampleRuns).map some)) := by
    intro place mem
    rw [sampleSelection, List.mem_singleton] at mem
    subst mem
    exact sampleValid (by decide)
  refine (latestTakenWhenOnce sampleStart valid).mpr fun place mem => ?_
  rw [sampleSelection, List.mem_singleton] at mem
  subst mem
  exact sampleOnce (by decide) (by decide)

theorem rerunPedestalsKept : ValidRows 2 3 (testDocs ((sampleRows rerunPedestals).map some)) ∧
    ¬TakesLatest 4#32 sampleMasks sampleStamp (some sampleECAL) (sampleRows rerunPedestals) := by
  have valid : ValidRows 2 3 (testDocs ((sampleRows rerunPedestals).map some)) := sampleValid (by decide)
  refine ⟨valid, fun takes => ?_⟩
  obtain ⟨start, begun⟩ := sampleCreated
  obtain ⟨r, starts⟩ := createFECDBDocSpec begun
  have one : TakesOne 2 3 start (sampleRows rerunPedestals) :=
    @takesOneOf sampleStamp (some sampleECAL) 4#32 sampleMasks _ (2,3) (by rw [sampleSelection]; simp) start begun takes
  have other : "ped_run" ∈ testMapNcrit := by decide
  have once := othersOnce starts.shows valid one other
  rw [sampleOfType, List.length_map] at once
  revert once
  decide

end PennDaq.FECGeneration
