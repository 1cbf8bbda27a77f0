import Mathlib.Data.Fin.VecNotation
import PennDaq.Lib.Steps
import PennDaq.ECALDocument

/-! FEC documents: `CreateFECDBDoc` starts one from an ECAL document, and
`AddECALTestResults` adds the documents of the tests to it. -/
namespace PennDaq.FECDocument
open Lib.CNumber
open Lib.JsonTree
open Lib.Steps
open ECALDocument

inductive Failure where
  | notFound
  | badDocument
  deriving DecidableEq, Repr

def used {α : Type} : Option α → Except Failure α
  | some value => .ok value
  | none => .error .badDocument

def copyString (node : Node) : Except Failure Json := (used (getString node)).map .string

def located (config : Option Node) : Except Failure Node :=
  match config with
  | some config => .ok config
  | none => .error .notFound

def channelOf (problems : Fin 32 → BitVec 32) : Json :=
  .object [("problem",arrayOf fun i => ofNat (problems i).toNat)]

def createFECDBDoc (crate card : Int) (generated : String) (ecalDoc : Node) : Except Failure Json := do
  let timeStamp := findMember ecalDoc "formatted_timestamp"
  let ecalId := findMember ecalDoc "_id"
  let config ← located (findConfig ecalDoc crate card)
  let settings := findMember ecalDoc "settings"
  let timeStamp ← copyString timeStamp
  let ecalId ← copyString ecalId
  let boardId ← copyString (findMember config "mb_id")
  let tr100 ← used (findMember settings "tr100")
  let tr20 ← used (findMember settings "tr20")
  let scmos ← used (findMember settings "scmos")
  let db0 ← copyString (findMember config "db0_id")
  let db1 ← copyString (findMember config "db1_id")
  let db2 ← copyString (findMember config "db2_id")
  let db3 ← copyString (findMember config "db3_id")
  return .object [("name",.string "FEC"),("crate",ofInt crate),("card",ofInt card),
    ("timestamp_ecal",timeStamp),("timestamp_generated",.string generated),
    ("approved",.bool false),("ecal_id",ecalId),("board_id",boardId),
    ("hw",.object [("vint",.number (getNumber (findMember settings "vint"))),
      ("hvref",.number (getNumber (findMember settings "hvref"))),
      ("tr100",tr100),("tr20",tr20),("scmos",scmos)]),
    ("id",.object [("db0",db0),("db1",db1),("db2",db2),("db3",db3),("hv",.string "0x0000")]),
    ("test",.object []),
    ("tube",.object [("problem",arrayOf fun _ : Fin 32 => ofNat 0),("cable_link",.string "0")]),
    ("channel",channelOf fun _ => 0#32),
    ("relay_on",arrayOf fun _ : Fin 4 => ofNat 1),
    ("comment",.array [])]

abbrev Problems := Fin 32 → BitVec 32

def cbalFail : Nat := 0
def zdiscFail : Nat := 1
def sttotFail : Nat := 2
def gtvalidFail : Nat := 3
def pedFail : Nat := 4
def cgtFail : Nat := 5
def gttotFail : Nat := 6
def fecTestFail : Nat := 7
def discCheckFail : Nat := 8
def pedRunByChannel : Nat := 9

def testMap : List String := ["crate_cbal","zdisc","set_ttot","cmos_m_gtvalid","find_noise_2"]

def testMapNcrit : List String :=
  ["ped_run","cgt_test","get_ttot","fec_test","disc_check","ped_run_by_channel"]

/- What the branch of a type does: the members it appends to `hw`, the channels whose
bit it sets, and the test it counts. -/
structure Branch where
  hw : Members
  bit : Nat
  fails : Fin 32 → Bool
  counts : Option (Fin 5)

def nothing : Branch := ⟨[],0,fun _ => false,none⟩

def copyNumber (node : Node) : Json := .number (getNumber node)

def intNumber (node : Node) : Int := truncate (getNumber node)

def crateCBalBranch (testDoc : Node) : Branch :=
  let channels := findMember testDoc "channels"
  let high := arrayOf fun i : Fin 32 => copyNumber (findMember (findElement channels i) "vbal_high")
  let low := arrayOf fun i : Fin 32 => copyNumber (findMember (findElement channels i) "vbal_low")
  ⟨[("vbal",.array [high,low])],cbalFail,
    fun i => getBool (findMember (findElement channels i) "errors"),some 0⟩

def zdiscBranch (testDoc : Node) : Branch :=
  let vals := findMember testDoc "zero_dac"
  let errors := findMember testDoc "errors"
  ⟨[("vthr_zero",arrayOf fun i : Fin 32 => copyNumber (findElement vals i))],zdiscFail,
    fun i => getBool (findElement errors i),some 1⟩

def setTtotBranch (testDoc : Node) : Branch :=
  let chips := findMember testDoc "chips"
  let errors (i j : Nat) :=
    findMember (findElement (findMember (findElement chips i) "channels") j) "errors"
  ⟨[("tdisc",.object [
      ("rmp",arrayOf fun i : Fin 8 => copyNumber (findMember (findElement chips i) "rmp")),
      ("rmpup",arrayOf fun _ : Fin 8 => ofNat 115),
      ("vsi",arrayOf fun i : Fin 8 => copyNumber (findMember (findElement chips i) "vsi")),
      ("vli",arrayOf fun _ : Fin 8 => ofNat 120)])],sttotFail,
    fun k => intNumber (errors (k/4) (k%4)) = 2,some 2⟩

def gtvalidBranch (testDoc : Node) : Branch :=
  let isetm := findMember testDoc "isetm"
  let iseta := findMember testDoc "iseta"
  let channels := findMember testDoc "channels"
  ⟨[("tcmos",.object [
      ("vmax",copyNumber (findMember testDoc "vmax")),
      ("vtacref",copyNumber (findMember testDoc "tacref")),
      ("isetm",arrayOf fun i : Fin 2 => copyNumber (findElement isetm i)),
      ("iseta",arrayOf fun i : Fin 2 => copyNumber (findElement iseta i)),
      ("tac_trim",arrayOf fun i : Fin 32 => copyNumber (findMember (findElement channels i) "tac_shift"))])],
    gtvalidFail,fun i => getBool (findMember (findElement channels i) "errors"),some 3⟩

def findNoiseBranch (testDoc : Node) : Branch :=
  let channels := findMember testDoc "channels"
  ⟨[("vthr",arrayOf fun i : Fin 32 => copyNumber (findMember (findElement channels i) "noiseless"))],
    0,fun _ => false,some 4⟩

def pedRunBranch (testDoc : Node) : Branch :=
  let errors := findMember testDoc "error_flags"
  ⟨[],pedFail,fun i => intNumber (findElement errors i) ≠ 0,none⟩

def cgtTestBranch (testDoc : Node) : Branch :=
  let errors := findMember testDoc "errors"
  ⟨[],cgtFail,fun i => getBool (findElement errors i),none⟩

def errorIsOne (bit : Nat) (testDoc : Node) : Branch :=
  let channels := findMember testDoc "channels"
  ⟨[],bit,fun i => intNumber (findMember (findElement channels i) "errors") = 1,none⟩

def fecTestBranch (testDoc : Node) : Branch :=
  let channels := findMember testDoc "cmos_test_reg"
  ⟨[],fecTestFail,fun i => !getBool (findElement channels i),none⟩

def pedRunByChannelBranch (testDoc : Node) : Branch :=
  let errors := findMember testDoc "errors"
  ⟨[],pedRunByChannel,fun i => getNumber (findElement errors i) > 0,none⟩

def branchOf (type : String) (testDoc : Node) : Branch :=
  if type = "crate_cbal" then crateCBalBranch testDoc
  else if type = "zdisc" then zdiscBranch testDoc
  else if type = "set_ttot" then setTtotBranch testDoc
  else if type = "cmos_m_gtvalid" then gtvalidBranch testDoc
  else if type = "find_noise_2" then findNoiseBranch testDoc
  else if type = "ped_run" then pedRunBranch testDoc
  else if type = "cgt_test" then cgtTestBranch testDoc
  else if type = "get_ttot" then errorIsOne gttotFail testDoc
  else if type = "fec_test" then fecTestBranch testDoc
  else if type = "disc_check" then errorIsOne discCheckFail testDoc
  else if type = "ped_run_by_channel" then pedRunByChannelBranch testDoc
  else nothing

/- `sprintf` prints a NULL string in this way. -/
def typeOf (testDoc : Node) : String := (getString (findMember testDoc "type")).getD "(null)"

def record (branch : Branch) (problems : Problems) : Problems := fun i =>
  if branch.fails i then problems i ||| (1#32 <<< branch.bit) else problems i

def countTest (branch : Branch) (counts : Fin 5 → Nat) : Fin 5 → Nat := fun k =>
  if branch.counts = some k then counts k + 1 else counts k

/- A branch without members does not use `hw`. -/
def appendHw (hw : Members) (doc : Json) : Except Failure Json :=
  match hw with
  | [] => .ok doc
  | first::later => used (modifyMember "hw" (appendMembers (first::later)) doc)

structure Building where
  doc : Json
  problems : Problems
  counts : Fin 5 → Nat

def addECALTestResults (testDoc : Node) (b : Building) : Except Failure Building := do
  let type := typeOf testDoc
  let testId ← copyString (findMember testDoc "_id")
  let branch := branchOf type testDoc
  let doc ← used (removeMember "channel" b.doc)
  let doc ← used (modifyMember "test" (appendMember type (.object [("test_id",testId)])) doc)
  let doc ← appendHw branch.hw doc
  let problems := record branch b.problems
  let doc ← used (appendMember "channel" (channelOf problems) doc)
  return ⟨doc,problems,countTest branch b.counts⟩

def addAll (testDocs : List Node) (b : Building) : Except Failure Building :=
  testDocs.foldlM (fun b testDoc => addECALTestResults testDoc b) b

def branchFor (testDoc : Node) : Branch := branchOf (typeOf testDoc) testDoc

def Identified (testDoc : Node) : Prop := ∃ id, getString (findMember testDoc "_id") = some id

def entryOf (testDoc : Node) : String × Json :=
  (typeOf testDoc,.object [("test_id",.string ((getString (findMember testDoc "_id")).getD ""))])

structure Shows (b : Building) (hw tests : Members) : Prop where
  distinct : Distinct b.doc
  hw : findMember (some b.doc) "hw" = some (.object hw)
  tests : findMember (some b.doc) "test" = some (.object tests)
  channel : findMember (some b.doc) "channel" = some (channelOf b.problems)

def Others (before after : Building) : Prop :=
  ∀ name, name ≠ "hw" → name ≠ "test" → name ≠ "channel" →
    findMember (some after.doc) name = findMember (some before.doc) name

structure Added (testDocs : List Node) (before after : Building) : Prop where
  others : Others before after
  problems : after.problems = testDocs.foldl (fun problems d => record (branchFor d) problems) before.problems
  counts : ∀ k, after.counts k =
    before.counts k + testDocs.countP (fun d => (branchFor d).counts = some k)

theorem appendHwSpec {doc : Json} {hw : Members} (more : Members) (distinct : Distinct doc)
    (found : findMember (some doc) "hw" = some (.object hw)) :
    ∃ after, appendHw more doc = .ok after ∧ Distinct after ∧
      findMember (some after) "hw" = some (.object (hw ++ more)) ∧
      ∀ name, name ≠ "hw" → findMember (some after) name = findMember (some doc) name := by
  cases more with
  | nil => exact ⟨doc, rfl, distinct, by rw [found, List.append_nil], fun _ _ => rfl⟩
  | cons first later =>
    obtain ⟨after, modified, distinct', here, others⟩ :=
      modifyMemberSpec (appendMembers (first::later)) distinct found rfl
    exact ⟨after, by rw [appendHw, modified]; rfl, distinct', here, others⟩

theorem addECALTestResultsSpec {testDoc : Node} {b : Building} {hw tests : Members}
    (before : Shows b hw tests) (identified : Identified testDoc) :
    ∃ after, addECALTestResults testDoc b = .ok after ∧
      Shows after (hw ++ (branchFor testDoc).hw) (tests ++ [entryOf testDoc]) ∧
      Added [testDoc] b after := by
  obtain ⟨id, identified⟩ := identified
  obtain ⟨doc1, removed, distinct1, gone, others1⟩ := removeMemberSpec before.distinct before.channel
  obtain ⟨doc2, entered, distinct2, tests2, others2⟩ := modifyMemberSpec
    (appendMember (typeOf testDoc) (.object [("test_id",.string id)])) distinct1
    ((others1 "test" (by decide)).trans before.tests) rfl
  obtain ⟨doc3, recorded, distinct3, hw3, others3⟩ := appendHwSpec (branchFor testDoc).hw distinct2
    ((others2 "hw" (by decide)).trans ((others1 "hw" (by decide)).trans before.hw))
  have fresh : findMember (some doc3) "channel" = none := by
    rw [others3 "channel" (by decide), others2 "channel" (by decide), gone]
  obtain ⟨doc4, appended, distinct4, channel4, others4⟩ := appendMemberSpec
    (channelOf (record (branchFor testDoc) b.problems)) distinct3 fresh
  refine ⟨⟨doc4, record (branchFor testDoc) b.problems, countTest (branchFor testDoc) b.counts⟩,
    ?_, ⟨distinct4, ?_, ?_, channel4⟩, ?_, rfl, ?_⟩
  · rw [branchFor] at recorded appended ⊢
    simp only [addECALTestResults, copyString, identified, removed, entered, recorded, appended, used,
      Except.map, bind, Except.bind, pure, Except.pure]
  · rw [others4 "hw" (by decide), hw3]
  · rw [others4 "test" (by decide), others3 "test" (by decide), tests2, entryOf, identified]
    rfl
  · intro name notHw notTest notChannel
    rw [others4 name notChannel, others3 name notHw, others2 name notTest, others1 name notChannel]
  · intro k
    simp only [countTest, List.countP_singleton, decide_eq_true_eq]
    split <;> rfl

theorem addProblems {testDoc : Node} {before after : Building}
    (added : addECALTestResults testDoc before = .ok after) :
    after.problems = record (branchFor testDoc) before.problems := by
  simp only [addECALTestResults, bindOk] at added
  obtain ⟨_, -, _, -, _, -, _, -, _, -, added⟩ := added
  cases added
  rfl

theorem addAllSpec (testDocs : List Node) {b : Building} {hw tests : Members}
    (before : Shows b hw tests) (identified : ∀ d ∈ testDocs, Identified d) :
    ∃ after, addAll testDocs b = .ok after ∧
      Shows after (hw ++ testDocs.flatMap fun d => (branchFor d).hw) (tests ++ testDocs.map entryOf) ∧
      Added testDocs b after := by
  induction testDocs generalizing b hw tests with
  | nil =>
    refine ⟨b, rfl, ?_, fun _ _ _ _ => rfl, rfl, fun _ => rfl⟩
    simpa using before
  | cons testDoc later ih =>
    obtain ⟨mid, added, shown, one⟩ := addECALTestResultsSpec before (identified _ List.mem_cons_self)
    obtain ⟨after, run, shown', rest⟩ := ih shown fun d mem => identified d (List.mem_cons_of_mem _ mem)
    refine ⟨after, ?_, ?_, ?_, ?_, fun k => ?_⟩
    · rw [addAll, List.foldlM_cons, added]
      exact run
    · simpa using shown'
    · intro name notHw notTest notChannel
      rw [rest.others name notHw notTest notChannel, one.others name notHw notTest notChannel]
    · rw [rest.problems, one.problems]
      rfl
    · have first := one.counts k
      have later := rest.counts k
      simp only [List.countP_cons, List.countP_nil] at first later ⊢
      omega

theorem usedOk {α : Type} {o : Option α} {value : α} : used o = .ok value ↔ o = some value := by
  cases o with
  | none => simp [used]
  | some v => simp [used]

theorem copyStringOk {node : Node} {copied : Json} :
    copyString node = .ok copied ↔ ∃ s, getString node = some s ∧ copied = .string s := by
  cases h : getString node with
  | none => simp [copyString, used, h, Except.map]
  | some s => simp [copyString, used, h, Except.map, eq_comm]

theorem locatedOk {config : Option Node} {slot : Node} :
    located config = .ok slot ↔ config = some slot := by
  cases config with
  | none => simp [located]
  | some c => simp [located]

def settingsHw (ecalDoc : Node) (tr100 tr20 scmos : Json) : Members :=
  let settings := findMember ecalDoc "settings"
  [("vint",.number (getNumber (findMember settings "vint"))),
    ("hvref",.number (getNumber (findMember settings "hvref"))),
    ("tr100",tr100),("tr20",tr20),("scmos",scmos)]

structure Recorded (ecalDoc : Node) (crate card : Int) where
  config : Node
  found : findConfig ecalDoc crate card = some config
  tr100 : Json
  tr20 : Json
  scmos : Json
  tr100Found : findMember (findMember ecalDoc "settings") "tr100" = some tr100
  tr20Found : findMember (findMember ecalDoc "settings") "tr20" = some tr20
  scmosFound : findMember (findMember ecalDoc "settings") "scmos" = some scmos
  boardId : String
  db : Fin 4 → String
  boardIdFound : getString (findMember config "mb_id") = some boardId
  dbFound : getString (findMember config "db0_id") = some (db 0) ∧
    getString (findMember config "db1_id") = some (db 1) ∧
    getString (findMember config "db2_id") = some (db 2) ∧
    getString (findMember config "db3_id") = some (db 3)

structure Starts {ecalDoc : Node} {crate card : Int} (r : Recorded ecalDoc crate card) (doc : Json) : Prop where
  shows : Shows ⟨doc,fun _ => 0#32,fun _ => 0⟩ (settingsHw ecalDoc r.tr100 r.tr20 r.scmos) []
  boardId : findMember (some doc) "board_id" = some (.string r.boardId)
  id : findMember (some doc) "id" = some (.object [("db0",.string (r.db 0)),("db1",.string (r.db 1)),
    ("db2",.string (r.db 2)),("db3",.string (r.db 3)),("hv",.string "0x0000")])
  unnamed : findMember (some doc) "_id" = none

theorem createFECDBDocSpec {crate card : Int} {generated : String} {ecalDoc : Node} {doc : Json}
    (created : createFECDBDoc crate card generated ecalDoc = .ok doc) :
    ∃ r : Recorded ecalDoc crate card, Starts r doc := by
  simp only [createFECDBDoc, bindOk, usedOk, copyStringOk, locatedOk] at created
  obtain ⟨config, found, created⟩ := created
  obtain ⟨_, ⟨stamp, -, rfl⟩, _, ⟨ecalId, -, rfl⟩, _, ⟨boardId, boardIdFound, rfl⟩, created⟩ := created
  obtain ⟨tr100, tr100Found, tr20, tr20Found, scmos, scmosFound, created⟩ := created
  obtain ⟨_, ⟨d0, found0, rfl⟩, _, ⟨d1, found1, rfl⟩, created⟩ := created
  obtain ⟨_, ⟨d2, found2, rfl⟩, _, ⟨d3, found3, rfl⟩, created⟩ := created
  cases created
  refine ⟨⟨config, found, tr100, tr20, scmos, tr100Found, tr20Found, scmosFound, boardId, ![d0,d1,d2,d3],
    boardIdFound, found0, found1, found2, found3⟩, ⟨⟨_, rfl, ?_⟩, rfl, rfl, rfl⟩, rfl, rfl, rfl⟩
  simp only [keys, List.map_cons, List.map_nil]
  decide

def sampleECAL : Json := .object [("formatted_timestamp",.string "2013-01-01T00:00:00"),
  ("_id",.string "e1"),
  ("settings",.object [("vint",ofNat 205),("hvref",ofNat 0),
    ("tr100",.object [("mask",arrayOf fun _ : Fin 32 => ofNat 1),
      ("delay",arrayOf fun _ : Fin 32 => ofNat 64)]),
    ("tr20",.object [("mask",arrayOf fun _ : Fin 32 => ofNat 1),
      ("width",arrayOf fun _ : Fin 32 => ofNat 32),("delay",arrayOf fun _ : Fin 32 => ofNat 2)]),
    ("scmos",arrayOf fun _ : Fin 32 => ofNat 0)]),
  ("crates",.array [.object [("crate_id",ofNat 2),("slots",.array [.object [("slot_id",ofNat 3),
    ("mb_id",.string "f0a1"),("db0_id",.string "d001"),("db1_id",.string "d002"),
    ("db2_id",.string "d003"),("db3_id",.string "d004")]])]])]

theorem sampleCreated : ∃ doc,
    createFECDBDoc 2 3 "2013-01-02T00:00:00" (some sampleECAL) = .ok doc := ⟨_, rfl⟩

end PennDaq.FECDocument
