import PennDaq.FECDocument
import PennDaq.FECSettings

/-! Writing and reading a FEC document: what `ParseFECHw` gets back of the settings and
of the five critical tests. -/
namespace PennDaq.FECReadBack
open Lib.CString
open Lib.CNumber
open Lib.JsonTree
open Lib.Steps
open ECALDocument
open FECSettings
open FECDocument

/- `CreateFECDBDoc` and then `AddECALTestResults` for each test. -/
def buildFECDoc (crate card : Int) (generated : String) (ecalDoc : Node) (testDocs : List Node) :
    Except Failure Building := do
  let doc ← createFECDBDoc crate card generated ecalDoc
  addAll testDocs ⟨doc,fun _ => 0#32,fun _ => 0⟩

structure CriticalTests where
  cbal : Node
  zdisc : Node
  ttot : Node
  gtvalid : Node
  noise : Node

def CriticalTests.docs (t : CriticalTests) : List Node := [t.cbal,t.zdisc,t.ttot,t.gtvalid,t.noise]

structure CriticalTests.Valid (t : CriticalTests) : Prop where
  types : t.docs.map typeOf = testMap
  identified : ∀ d ∈ t.docs, Identified d

def recordedId (node : Node) : BitVec 16 := BitVec.ofNat 16 (strtoul16 ((getString node).getD "").toList)

def recordedBlock (ecalDoc : Node) (crate card : Int) (t : CriticalTests) (disableMask : BitVec 32) : MB :=
  let config := (findConfig ecalDoc crate card).join
  let settings := findMember ecalDoc "settings"
  let tr100 := findMember settings "tr100"
  let tr20 := findMember settings "tr20"
  let balance (name : String) (k : Fin 32) :=
    byteOf (findMember (findElement (findMember t.cbal "channels") k) name)
  let chip (j : Fin 8) := findElement (findMember t.ttot "chips") j
  { mbID := recordedId (findMember config "mb_id")
    dbID := ![recordedId (findMember config "db0_id"),recordedId (findMember config "db1_id"),
      recordedId (findMember config "db2_id"),recordedId (findMember config "db3_id")]
    vBal := ![balance "vbal_high",balance "vbal_low"]
    vThr := fun k => byteOf (findMember (findElement (findMember t.noise "channels") k) "noiseless")
    tDisc := {
      rmp := fun j => byteOf (findMember (chip j) "rmp")
      rmpup := fun j => byteOf (findMember (chip j) "rmpup")
      vsi := fun j => byteOf (findMember (chip j) "vsi")
      vli := fun j => byteOf (findMember (chip j) "vli") }
    tCmos := {
      vMax := byteOf (findMember t.gtvalid "vmax")
      tacRef := byteOf (findMember t.gtvalid "tacref")
      isetm := fun j => byteOf (findElement (findMember t.gtvalid "isetm") j)
      iseta := fun j => byteOf (findElement (findMember t.gtvalid "iseta") j)
      tacShift := fun k =>
        byteOf (findMember (findElement (findMember t.gtvalid "channels") k) "tac_shift") }
    vInt := byteOf (findMember settings "vint")
    hvRef := byteOf (findMember settings "hvref")
    tr100 := {
      mask := fun j => byteOf (findElement (findMember tr100 "mask") j)
      tDelay := fun j => byteOf (findElement (findMember tr100 "delay") j) }
    tr20 := {
      mask := fun j => byteOf (findElement (findMember tr20 "mask") j)
      tWidth := fun j => byteOf (findElement (findMember tr20 "width") j)
      tDelay := fun j => byteOf (findElement (findMember tr20 "delay") j) }
    sCmos := fun j => intOf 16 (findElement (findMember settings "scmos") j)
    disableMask := disableMask }

def stored (id rev : String) (doc : Json) : Json :=
  match doc with
  | .object members => .object (("_id",.string id)::("_rev",.string rev)::members)
  | other => other

/- The document marks a channel as disabled. -/
def MarkedDisabled (doc : Json) (channel : Nat) : Prop :=
  ∃ n, findElement (findMember (findMember (some doc) "hw") "chan_disable") channel =
    some (.number n) ∧ n ≠ 0

/- The block is what was recorded, and it disables marked channels only. -/
def ReadsBack (ecalDoc : Node) (crate card : Int) (t : CriticalTests) (doc : Json) : Prop :=
  ∀ before : MB, ∃ mb, parseFECHw (some doc) before = some mb ∧
    mb = recordedBlock ecalDoc crate card t mb.disableMask ∧
    ∀ channel : Fin 32, mb.disableMask.getLsbD channel = true → MarkedDisabled doc channel

def hwOf (ecalDoc : Node) (tr100 tr20 scmos : Json) (t : CriticalTests) : Members :=
  settingsHw ecalDoc tr100 tr20 scmos ++ ((crateCBalBranch t.cbal).hw ++ ((zdiscBranch t.zdisc).hw ++
    ((setTtotBranch t.ttot).hw ++ ((gtvalidBranch t.gtvalid).hw ++ (findNoiseBranch t.noise).hw))))

theorem branchesOf {t : CriticalTests} (valid : t.Valid) :
    (t.docs.flatMap fun d => (branchFor d).hw) = (crateCBalBranch t.cbal).hw ++ ((zdiscBranch t.zdisc).hw ++
      ((setTtotBranch t.ttot).hw ++ ((gtvalidBranch t.gtvalid).hw ++ (findNoiseBranch t.noise).hw))) := by
  have types := valid.types
  simp only [CriticalTests.docs, testMap, List.map_cons, List.map_nil, List.cons.injEq, and_true] at types
  obtain ⟨cbal, zdisc, ttot, gtvalid, noise⟩ := types
  simp only [CriticalTests.docs, List.flatMap_cons, List.flatMap_nil, branchFor, cbal, zdisc, ttot,
    gtvalid, noise, List.append_nil]
  rfl

theorem hwPerm (ecalDoc : Node) (tr100 tr20 scmos : Json) {t : CriticalTests} (valid : t.Valid)
    {testDocs : List Node} (order : testDocs.Perm t.docs) (name : String) :
    (settingsHw ecalDoc tr100 tr20 scmos ++ testDocs.flatMap fun d => (branchFor d).hw).lookup name =
      (hwOf ecalDoc tr100 tr20 scmos t).lookup name := by
  have same := (order.flatMap_right fun d => (branchFor d).hw).append_left
    (settingsHw ecalDoc tr100 tr20 scmos)
  rw [branchesOf valid] at same
  have keysOf : keys (hwOf ecalDoc tr100 tr20 scmos t) =
    ["vint","hvref","tr100","tr20","scmos","vbal","vthr_zero","tdisc","tcmos","vthr"] := rfl
  refine lookupPerm same ((same.map Prod.fst).nodup_iff.mpr ?_) name
  change (keys (hwOf ecalDoc tr100 tr20 scmos t)).Nodup
  rw [keysOf]
  decide

theorem parseSettingsLookup {tacRef tacShift : String} {hw after : Members}
    (same : ∀ name, hw.lookup name = after.lookup name) (mb : MB) :
    parseSettings tacRef tacShift (some (.object hw)) mb =
      parseSettings tacRef tacShift (some (.object after)) mb := by
  have look : findMember (some (.object hw)) = findMember (some (.object after)) := funext same
  unfold parseSettings disableMaskOf
  rw [look]

theorem byteAt {n : Nat} (element : Fin n → Node) (i : Fin n) :
    byteOf (findElement (some (arrayOf fun i => copyNumber (element i))) i) = byteOf (element i) := by
  rw [findElementArrayOf]
  rfl

theorem fixedByte {n : Nat} (value : ℕ) (i : Fin n) :
    byteOf (findElement (some (arrayOf fun _ : Fin n => ofNat value)) i) = BitVec.ofNat 8 value := by
  rw [findElementArrayOf, byteOf, intOf, getNumberNat, toUIntNat]

/- Two members of `tdisc` are fixed numbers in the document, and no channel is enabled. -/
def readBlock (recorded : MB) : MB :=
  { recorded with
    tDisc := { recorded.tDisc with rmpup := fun _ => 115#8, vli := fun _ => 120#8 }
    disableMask := 0xFFFFFFFF#32 }

theorem parseHwOf {ecalDoc : Node} {crate card : Int} (r : Recorded ecalDoc crate card)
    (t : CriticalTests) {mb : MB} {disableMask : BitVec 32}
    (mbID : mb.mbID = (recordedBlock ecalDoc crate card t disableMask).mbID)
    (dbID : mb.dbID = (recordedBlock ecalDoc crate card t disableMask).dbID) :
    parseSettings "vtacref" "tac_trim" (some (.object (hwOf ecalDoc r.tr100 r.tr20 r.scmos t))) mb =
      readBlock (recordedBlock ecalDoc crate card t disableMask) := by
  have tr100 : findMember (some (.object (hwOf ecalDoc r.tr100 r.tr20 r.scmos t))) "tr100" =
      findMember (findMember ecalDoc "settings") "tr100" := r.tr100Found.symm
  have tr20 : findMember (some (.object (hwOf ecalDoc r.tr100 r.tr20 r.scmos t))) "tr20" =
      findMember (findMember ecalDoc "settings") "tr20" := r.tr20Found.symm
  have scmos : findMember (some (.object (hwOf ecalDoc r.tr100 r.tr20 r.scmos t))) "scmos" =
      findMember (findMember ecalDoc "settings") "scmos" := r.scmosFound.symm
  have noDisable : findMember (some (.object (hwOf ecalDoc r.tr100 r.tr20 r.scmos t))) "chan_disable" =
      none := rfl
  refine MB.ext mbID dbID ?_ ?_ ?_ ?_ rfl rfl ?_ ?_ ?_ (disableMaskMissing noDisable)
  · funext j k
    cases j using Fin.cases with
    | zero => exact byteAt _ k
    | succ j => cases Subsingleton.elim j 0; exact byteAt _ k
  · exact funext fun k => byteAt _ k
  · exact TDisc.ext (funext fun j => byteAt _ j) (funext fun j => fixedByte 115 j)
      (funext fun j => byteAt _ j) (funext fun j => fixedByte 120 j)
  · exact TCmos.ext rfl rfl (funext fun j => byteAt _ j) (funext fun j => byteAt _ j)
      (funext fun j => byteAt _ j)
  · simp only [parseSettings, tr100, readBlock, recordedBlock]
  · simp only [parseSettings, tr20, readBlock, recordedBlock]
  · simp only [parseSettings, scmos, readBlock, recordedBlock]

theorem idOfRecorded {node : Node} {text : String} (found : getString node = some text) :
    idOf (some (.string text)) = some (recordedId node) := by
  rw [recordedId, found]
  rfl

theorem storedMember (id rev : String) {doc : Json} {name : String} (other : "_id" ≠ name)
    (other' : "_rev" ≠ name) : findMember (some (stored id rev doc)) name = findMember (some doc) name := by
  cases doc with
  | object members =>
    rw [stored, findMemberObject, lookupCons, if_neg other, lookupCons, if_neg other']
    rfl
  | null => rfl
  | bool flag => rfl
  | number n => rfl
  | string text => rfl
  | array elements => rfl

theorem storedId (id rev : String) {doc member : Json} {name : String}
    (held : findMember (some doc) name = some member) :
    findMember (some (stored id rev doc)) "_id" = some (.string id) := by
  cases doc with
  | object members => rfl
  | null => cases held
  | bool flag => cases held
  | number n => cases held
  | string text => cases held
  | array elements => cases held

section
variable {crate card : Int} {generated : String} {ecalDoc : Node} {t : CriticalTests} {testDocs : List Node}
  {b : Building}

theorem builtReads (valid : t.Valid) (order : testDocs.Perm t.docs)
    (built : buildFECDoc crate card generated ecalDoc testDocs = .ok b) :
    findMember (findMember (some b.doc) "hw") "chan_disable" = none ∧
      (∀ before, parseFECHw (some b.doc) before = none) ∧
      ∀ id rev before, parseFECHw (some (stored id rev b.doc)) before =
        some (readBlock (recordedBlock ecalDoc crate card t 0#32)) := by
  obtain ⟨doc, created, added⟩ := bindOk.mp built
  obtain ⟨r, start⟩ := createFECDBDocSpec created
  obtain ⟨after, run, shown, unchanged⟩ := addAllSpec testDocs start.shows
    fun d mem => valid.identified d (order.mem_iff.mp mem)
  obtain rfl : after = b := Except.ok.inj (run.symm.trans added)
  have look := hwPerm ecalDoc r.tr100 r.tr20 r.scmos valid order
  have unnamed := (unchanged.others "_id" (by decide) (by decide) (by decide)).trans start.unnamed
  refine ⟨by rw [shown.hw]; exact look "chan_disable", fun before => by rw [parseFECHw, unnamed]; rfl,
    fun name rev before => ?_⟩
  have board := (unchanged.others "board_id" (by decide) (by decide) (by decide)).trans start.boardId
  have id := (unchanged.others "id" (by decide) (by decide) (by decide)).trans start.id
  have config : (findConfig ecalDoc crate card).join = r.config := by rw [r.found]; rfl
  obtain ⟨db0, db1, db2, db3⟩ := r.dbFound
  have boardId := idOfRecorded r.boardIdFound
  have id0 := idOfRecorded db0
  have id1 := idOfRecorded db1
  have id2 := idOfRecorded db2
  have id3 := idOfRecorded db3
  have member0 : findMember (findMember (some after.doc) "id") "db0" = some (.string (r.db 0)) := by
    rw [id]; rfl
  have member1 : findMember (findMember (some after.doc) "id") "db1" = some (.string (r.db 1)) := by
    rw [id]; rfl
  have member2 : findMember (findMember (some after.doc) "id") "db2" = some (.string (r.db 2)) := by
    rw [id]; rfl
  have member3 : findMember (findMember (some after.doc) "id") "db3" = some (.string (r.db 3)) := by
    rw [id]; rfl
  have named := storedId name rev board
  simp only [parseFECHw, named, getStringString, storedMember name rev (by decide : "_id" ≠ "hw") (by decide),
    storedMember name rev (by decide : "_id" ≠ "board_id") (by decide),
    storedMember name rev (by decide : "_id" ≠ "id") (by decide), board, boardId, member0, member1, member2,
    member3, id0, id1, id2, id3, shown.hw]
  refine congrArg some ?_
  rw [parseSettingsLookup look]
  refine parseHwOf r t ?_ ?_
  · rw [recordedBlock, config]
  · rw [recordedBlock, config]

theorem unmarkedDisabled (valid : t.Valid) (order : testDocs.Perm t.docs)
    (built : buildFECDoc crate card generated ecalDoc testDocs = .ok b) (id rev : String) :
    ¬ReadsBack ecalDoc crate card t (stored id rev b.doc) := by
  intro reads
  let before := recordedBlock ecalDoc crate card t 0#32
  obtain ⟨noMember, -, parsed⟩ := builtReads valid order built
  obtain ⟨mb, parsed', -, marked⟩ := reads before
  obtain rfl : readBlock before = mb := Option.some.inj ((parsed id rev before).symm.trans parsed')
  have disabled : (0xFFFFFFFF#32).getLsbD (0 : Fin 32) = true := by decide
  obtain ⟨n, found, -⟩ := marked 0 disabled
  rw [storedMember id rev (by decide) (by decide), noMember] at found
  cases found

theorem unnamedUnread (valid : t.Valid) (order : testDocs.Perm t.docs)
    (built : buildFECDoc crate card generated ecalDoc testDocs = .ok b) :
    ¬ReadsBack ecalDoc crate card t b.doc := by
  intro reads
  obtain ⟨mb, parsed, -⟩ := reads (recordedBlock ecalDoc crate card t 0#32)
  rw [(builtReads valid order built).2.1] at parsed
  cases parsed

end

def sampleTest (type : String) (members : Members) : Node :=
  some (.object (("type",.string type)::("_id",.string type)::members))

def sampleTests : CriticalTests where
  cbal := sampleTest "crate_cbal" [("channels",arrayOf fun _ : Fin 32 =>
    .object [("vbal_high",ofNat 130),("vbal_low",ofNat 140),("errors",.bool false)])]
  zdisc := sampleTest "zdisc" [("zero_dac",arrayOf fun _ : Fin 32 => ofNat 120),
    ("errors",arrayOf fun _ : Fin 32 => .bool false)]
  ttot := sampleTest "set_ttot" [("chips",arrayOf fun _ : Fin 8 => .object [("rmp",ofNat 120),
    ("vsi",ofNat 120),("rmpup",ofNat 115),("vli",ofNat 120),
    ("channels",arrayOf fun _ : Fin 4 => .object [("errors",ofNat 0)])])]
  gtvalid := sampleTest "cmos_m_gtvalid" [("vmax",ofNat 203),("tacref",ofNat 72),
    ("isetm",arrayOf fun _ : Fin 2 => ofNat 90),("iseta",arrayOf fun _ : Fin 2 => ofNat 70),
    ("channels",arrayOf fun _ : Fin 32 => .object [("tac_shift",ofNat 0),("errors",.bool false)])]
  noise := sampleTest "find_noise_2" [("channels",arrayOf fun _ : Fin 32 =>
    .object [("noiseless",ofNat 125)])]

theorem sampleValid : sampleTests.Valid := by
  refine ⟨rfl, fun d mem => ?_⟩
  simp only [CriticalTests.docs, List.mem_cons, List.not_mem_nil, or_false] at mem
  rcases mem with rfl | rfl | rfl | rfl | rfl <;> exact ⟨_, rfl⟩

theorem sampleBuilt : ∃ b,
    buildFECDoc 2 3 "2013-01-02T00:00:00" (some sampleECAL) sampleTests.docs = .ok b := by
  obtain ⟨doc, created⟩ := sampleCreated
  obtain ⟨r, start⟩ := createFECDBDocSpec created
  obtain ⟨b, run, -, -⟩ := addAllSpec sampleTests.docs start.shows sampleValid.identified
  exact ⟨b, bindOk.mpr ⟨doc, created, run⟩⟩

theorem everyChannelDisabled {crate card : Int} {generated : String} {ecalDoc : Node}
    {t : CriticalTests} (valid : t.Valid) {testDocs : List Node} (order : testDocs.Perm t.docs)
    {b : Building} (built : buildFECDoc crate card generated ecalDoc testDocs = .ok b) :
    (¬ReadsBack ecalDoc crate card t b.doc ∧ ∀ before : MB, parseFECHw (some b.doc) before = none) ∧
      ∀ id rev, ¬ReadsBack ecalDoc crate card t (stored id rev b.doc) ∧
        ∀ before : MB, parseFECHw (some (stored id rev b.doc)) before =
          some (readBlock (recordedBlock ecalDoc crate card t 0#32)) := by
  obtain ⟨-, unread, read⟩ := builtReads valid order built
  exact ⟨⟨unnamedUnread valid order built,unread⟩,
    fun id rev => ⟨unmarkedDisabled valid order built id rev,read id rev⟩⟩

theorem everyChannelDisabledSample : ∃ b,
    buildFECDoc 2 3 "2013-01-02T00:00:00" (some sampleECAL) sampleTests.docs = .ok b ∧
      ∀ before : MB, parseFECHw (some (stored "f1" "1-a" b.doc)) before =
        some (readBlock (recordedBlock (some sampleECAL) 2 3 sampleTests 0#32)) := by
  obtain ⟨b, built⟩ := sampleBuilt
  exact ⟨b, built, ((everyChannelDisabled sampleValid (List.Perm.refl _) built).2 "f1" "1-a").2⟩

theorem goodBoardDisabled : ∃ b,
    buildFECDoc 2 3 "2013-01-02T00:00:00" (some sampleECAL) sampleTests.docs = .ok b ∧
      ¬ReadsBack (some sampleECAL) 2 3 sampleTests b.doc ∧
      ¬ReadsBack (some sampleECAL) 2 3 sampleTests (stored "f1" "1-a" b.doc) := by
  obtain ⟨b, built⟩ := sampleBuilt
  exact ⟨b, built, unnamedUnread sampleValid (List.Perm.refl _) built,
    unmarkedDisabled sampleValid (List.Perm.refl _) built "f1" "1-a"⟩

end PennDaq.FECReadBack
