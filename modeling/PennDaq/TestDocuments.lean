import PennDaq.FECDocument

/-! The documents that the test programs post: what each of them writes for the
channels of one board, from its measurements or from the errors that it has set. -/
namespace PennDaq.TestDocuments
open Lib.JsonTree

abbrev Channels (α : Type) := Fin 32 → α

def ofBit (b : BitVec 32) (mask : Nat) : Bool := b &&& BitVec.ofNat 32 mask != 0#32

def noneOf (errors : Channels Bool) : Json := .bool ((List.finRange 32).all fun i => !errors i)

structure BalanceParams where
  highGainBalance : Int
  lowGainBalance : Int
  errorFlag : Int

def errorFlagText (errorFlag : Int) : String :=
  if errorFlag = 1 then "Extreme balance set to 150"
  else if errorFlag = 2 then "Extreme balance values"
  else if errorFlag = 3 then "Partially balanced"
  else if errorFlag = 4 then "Unbalanced, set to 150"
  else if errorFlag = 5 then "Problem setting up slot"
  else "none"

def crateCBal (chanParam : Channels BalanceParams) (returnValue : Int) : Members :=
  [("type",.string "crate_cbal"),
    ("channels",arrayOf fun j => .object [("id",ofNat j),
      ("vbal_high",ofInt (chanParam j).highGainBalance),("vbal_low",ofInt (chanParam j).lowGainBalance),
      ("errors",.bool ((chanParam j).errorFlag ≠ 0)),
      ("error_flags",.string (errorFlagText (chanParam j).errorFlag))]),
    ("pass",.bool (returnValue = 0 ∧ ∀ j, (chanParam j).errorFlag = 0))]

structure ZDiscResult where
  maxRate : ℚ
  lowerRate : ℚ
  upperRate : ℚ
  maxDacSetting : BitVec 8
  lowerDacSetting : BitVec 8
  upperDacSetting : BitVec 8
  zeroDacSetting : BitVec 8

def ZDiscResult.failed (r : ZDiscResult) : Bool :=
  r.maxRate = 0 || r.lowerRate = 0 || r.upperRate = 0 || r.zeroDacSetting = 255#8

def zdisc (results : Channels ZDiscResult) (rate : ℚ) : Members :=
  [("type",.string "zdisc"),
    ("max_rate",arrayOf fun j => .number (results j).maxRate),
    ("lower_rate",arrayOf fun j => .number (results j).lowerRate),
    ("upper_rate",arrayOf fun j => .number (results j).upperRate),
    ("max_dac",arrayOf fun j => ofNat (results j).maxDacSetting.toNat),
    ("lower_dac",arrayOf fun j => ofNat (results j).lowerDacSetting.toNat),
    ("upper_dac",arrayOf fun j => ofNat (results j).upperDacSetting.toNat),
    ("zero_dac",arrayOf fun j => ofNat (results j).zeroDacSetting.toNat),
    ("target_rate",.number rate),
    ("errors",arrayOf fun j => .bool (results j).failed),
    ("pass",noneOf fun j => (results j).failed)]

def rmpupDefault : Nat := 115
def vliDefault : Nat := 120

structure ChipSetup where
  rmp : BitVec 16
  vsi : BitVec 16

/- A channel without triggers gets 2. The setup of the slot ends with the first chip
that cannot be set up, and the channels of that chip get 1. -/
def setTtotError (noTriggers : Channels Bool) (aborted : Option (Fin 8)) (chip : Fin 8) (j : Fin 4) : Nat :=
  if aborted = some chip then 1
  else if noTriggers ⟨chip*4+j,by omega⟩ then 2
  else 0

structure TTotSetup where
  targetTime : Int
  chips : Fin 8 → ChipSetup
  times : Channels (BitVec 16)
  noTriggers : Channels Bool
  aborted : Option (Fin 8)

def TTotSetup.error (s : TTotSetup) (chip : Fin 8) (j : Fin 4) : Nat :=
  setTtotError s.noTriggers s.aborted chip j

def TTotSetup.errorOf (s : TTotSetup) (ch : Fin 32) : Nat := s.error ⟨ch/4,by omega⟩ ⟨ch%4,by omega⟩

def setTtot (s : TTotSetup) : Members :=
  [("type",.string "set_ttot"),
    ("targettime",ofInt s.targetTime),
    ("chips",arrayOf fun k : Fin 8 => .object [("rmp",ofNat (s.chips k).rmp.toNat),
      ("vsi",ofNat (s.chips k).vsi.toNat),("rmpup",ofNat rmpupDefault),("vli",ofNat vliDefault),
      ("channels",arrayOf fun j : Fin 4 => .object [("id",ofNat (4*k+j)),
        ("time",ofNat (s.times ⟨k*4+j,by omega⟩).toNat),("errors",ofNat (s.error k j))])]),
    ("pass",.bool (∀ k j, s.error k j = 0))]

def getTtotError (targetTime : Int) (time : BitVec 16) : Nat :=
  let totError := if time.toNat = 9999 then 3 else 0
  if targetTime > time.toNat then
    if targetTime < 9999 then 1 else totError
  else if targetTime = 9999 then 2
  else totError

def getTtot (targetTime : Int) (times : Channels (BitVec 16)) : Members :=
  [("type",.string "get_ttot"),
    ("targettime",ofInt targetTime),
    ("channels",arrayOf fun i => .object [("id",ofNat i),("time",ofNat (times i).toNat),
      ("errors",ofNat (getTtotError targetTime (times i)))]),
    ("pass",.bool (∀ i, getTtotError targetTime (times i) ≠ 1))]

def vmax : Nat := 203
def tacref : Nat := 72
def iseta : Nat := 70
def isetaNoTwiddle : Nat := 0
def lockoutWidth : ℚ := 420

structure GTValidResult where
  tacbits : BitVec 16
  gtvalid0 : ℚ
  gtvalid1 : ℚ
  chanError : Bool

def GTValidResult.failed (r : GTValidResult) : Bool :=
  r.chanError || (r.gtvalid0 < 0 || r.gtvalid1 < 0) ||
    (r.gtvalid0 > lockoutWidth || r.gtvalid1 > lockoutWidth)

structure GTValidSlot where
  isetm : Fin 2 → BitVec 16
  twiddleOn : Bool
  results : Channels GTValidResult

def GTValidSlot.slotErrors (s : GTValidSlot) : Nat :=
  (if ((s.isetm 1).toNat - (s.isetm 0).toNat : Int).natAbs > 10 then 1 else 0) +
    if ∃ j, (s.results j).failed then 2 else 0

def cmosMGtvalid (s : GTValidSlot) : Members :=
  [("type",.string "cmos_m_gtvalid"),
    ("vmax",ofNat vmax),("tacref",ofNat tacref),
    ("isetm",arrayOf fun j : Fin 2 => ofNat (s.isetm j).toNat),
    ("iseta",arrayOf fun _ : Fin 2 => ofNat (if s.twiddleOn then iseta else isetaNoTwiddle)),
    ("channels",arrayOf fun j => .object [("id",ofNat j),("tac_shift",ofNat (s.results j).tacbits.toNat),
      ("gtvalid0",.number (s.results j).gtvalid0),("gtvalid1",.number (s.results j).gtvalid1),
      ("errors",.bool (s.results j).failed)]),
    ("pass",.bool (s.slotErrors = 0)),
    ("slot_errors",ofNat s.slotErrors)]

structure Cell where
  perCell : BitVec 16
  qhlbar : ℚ
  qhlrms : ℚ
  qhsbar : ℚ
  qhsrms : ℚ
  qlxbar : ℚ
  qlxrms : ℚ
  tacbar : ℚ
  tacrms : ℚ

structure Pedestals where
  cells : Channels (Fin 16 → Cell)
  errorFlag : Channels (BitVec 32)
  balanced : Bool

def Pedestals.table (p : Pedestals) (value : Cell → ℚ) : Json :=
  arrayOf fun i : Fin 32 => arrayOf fun j : Fin 16 => .number (value (p.cells i j))

def pedRun (p : Pedestals) : Members :=
  [("type",.string "ped_run"),
    ("num",p.table fun c => c.perCell.toNat),
    ("qhl",p.table Cell.qhlbar),("qhl_rms",p.table Cell.qhlrms),
    ("qhs",p.table Cell.qhsbar),("qhs_rms",p.table Cell.qhsrms),
    ("qlx",p.table Cell.qlxbar),("qlx_rms",p.table Cell.qlxrms),
    ("tac",p.table Cell.tacbar),("tac_rms",p.table Cell.tacrms),
    ("errors",arrayOf fun i => .bool (p.errorFlag i ≠ 0#32)),
    ("error_flags",arrayOf fun i => ofNat (p.errorFlag i).toNat),
    ("pass",noneOf fun i => p.errorFlag i ≠ 0#32),
    ("balanced",.bool p.balanced)]

structure Extremes where
  qhsMax : ℚ
  qhlMax : ℚ
  qlxMax : ℚ
  qhsMin : ℚ
  qhlMin : ℚ
  qlxMin : ℚ

/- The error flags are unsigned, so that the -1 of a failed run is a large number. -/
def pedRunByChannelDoc (errorFlags : Channels (BitVec 32)) (extremes : Channels Extremes) : Members :=
  [("type",.string "ped_run_by_channel"),
    ("errors",arrayOf fun i => ofNat (errorFlags i).toNat),
    ("qhs_max",arrayOf fun i => .number (extremes i).qhsMax),
    ("qhl_max",arrayOf fun i => .number (extremes i).qhlMax),
    ("qlx_max",arrayOf fun i => .number (extremes i).qlxMax),
    ("qhs_min",arrayOf fun i => .number (extremes i).qhsMin),
    ("qhl_min",arrayOf fun i => .number (extremes i).qhlMin),
    ("qlx_min",arrayOf fun i => .number (extremes i).qlxMin),
    ("pass",noneOf fun i => errorFlags i ≠ 0#32)]

def cgtTest (missingBundles : Bool) (chanErrors : Channels Int) (errorHistory : String) : Members :=
  [("type",.string "cgt_test"),
    ("missing_bundles",.bool missingBundles),
    ("errors",arrayOf fun i => .bool (chanErrors i ≠ 0)),
    ("printout",.string errorHistory),
    ("pass",.bool (!missingBundles ∧ ∀ i, chanErrors i ≤ 0))]

def fecTest (discreteRegErrors cmosTestRegErrors : BitVec 32) : Members :=
  [("type",.string "fec_test"),
    ("pedestal",.bool (!ofBit discreteRegErrors 1)),
    ("chip_disable",.bool (!ofBit discreteRegErrors 2)),
    ("lgi_select",.bool (!ofBit discreteRegErrors 4)),
    ("cmos_prog_low",.bool (!ofBit discreteRegErrors 8)),
    ("cmos_prog_high",.bool (!ofBit discreteRegErrors 16)),
    ("cmos_test_reg",.array ((List.ofFn fun i : Fin 32 => .bool (!ofBit cmosTestRegErrors (2^i.val)))
      ++ [.bool (cmosTestRegErrors = 0#32)])),
    ("pass",.bool (discreteRegErrors = 0#32 ∧ cmosTestRegErrors = 0#32))]

structure DiscCounts where
  initial : BitVec 32
  final : BitVec 32

def DiscCounts.cdiff (c : DiscCounts) : BitVec 32 := c.final - c.initial

def DiscCounts.failed (c : DiscCounts) (numPeds : BitVec 32) : Bool := c.cdiff != numPeds

def discCheck (counts : Channels DiscCounts) (numPeds : BitVec 32) : Members :=
  [("type",.string "disc_check"),
    ("channels",arrayOf fun i => .object [("id",ofNat i),
      ("count_minus_peds",ofInt (if (counts i).failed numPeds then ((counts i).cdiff - numPeds).toInt else 0)),
      ("errors",.bool ((counts i).failed numPeds))]),
    ("pass",noneOf fun i => (counts i).failed numPeds)]

inductive TestRun where
  | crateCBal (chanParam : Channels BalanceParams) (returnValue : Int)
  | zdisc (results : Channels ZDiscResult) (rate : ℚ)
  | setTtot (setup : TTotSetup)
  | cmosMGtvalid (slot : GTValidSlot)
  | pedRun (pedestals : Pedestals)
  | cgtTest (missingBundles : Bool) (chanErrors : Channels Int) (errorHistory : String)
  | getTtot (targetTime : Int) (times : Channels (BitVec 16))
  | fecTest (discreteRegErrors cmosTestRegErrors : BitVec 32)
  | discCheck (counts : Channels DiscCounts) (numPeds : BitVec 32)
  | pedRunByChannel (errorFlags : Channels (BitVec 32)) (extremes : Channels Extremes)

def TestRun.document : TestRun → Members
  | .crateCBal chanParam returnValue => TestDocuments.crateCBal chanParam returnValue
  | .zdisc results rate => TestDocuments.zdisc results rate
  | .setTtot setup => TestDocuments.setTtot setup
  | .cmosMGtvalid slot => TestDocuments.cmosMGtvalid slot
  | .pedRun pedestals => TestDocuments.pedRun pedestals
  | .cgtTest missingBundles chanErrors errorHistory =>
    TestDocuments.cgtTest missingBundles chanErrors errorHistory
  | .getTtot targetTime times => TestDocuments.getTtot targetTime times
  | .fecTest discreteRegErrors cmosTestRegErrors =>
    TestDocuments.fecTest discreteRegErrors cmosTestRegErrors
  | .discCheck counts numPeds => TestDocuments.discCheck counts numPeds
  | .pedRunByChannel errorFlags extremes => pedRunByChannelDoc errorFlags extremes

/- The error that the program writes for a channel is not zero, or its pass is false. -/
def TestRun.recordsFailing : TestRun → Fin 32 → Bool
  | .crateCBal chanParam _, ch => (chanParam ch).errorFlag ≠ 0
  | .zdisc results _, ch => (results ch).failed
  | .setTtot setup, ch => setup.errorOf ch ≠ 0
  | .cmosMGtvalid slot, ch => (slot.results ch).failed
  | .pedRun pedestals, ch => pedestals.errorFlag ch ≠ 0#32
  | .cgtTest _ chanErrors _, ch => chanErrors ch ≠ 0
  | .getTtot targetTime times, ch => getTtotError targetTime (times ch) ≠ 0
  | .fecTest _ cmosTestRegErrors, ch => ofBit cmosTestRegErrors (2^ch.val)
  | .discCheck counts numPeds, ch => (counts ch).failed numPeds
  | .pedRunByChannel errorFlags _, ch => errorFlags ch ≠ 0#32

def TestRun.bit : TestRun → Nat
  | .crateCBal .. => FECDocument.cbalFail
  | .zdisc .. => FECDocument.zdiscFail
  | .setTtot .. => FECDocument.sttotFail
  | .cmosMGtvalid .. => FECDocument.gtvalidFail
  | .pedRun .. => FECDocument.pedFail
  | .cgtTest .. => FECDocument.cgtFail
  | .getTtot .. => FECDocument.gttotFail
  | .fecTest .. => FECDocument.fecTestFail
  | .discCheck .. => FECDocument.discCheckFail
  | .pedRunByChannel .. => FECDocument.pedRunByChannel

/- The optional tags, and what `SetupDebugDoc` appends. -/
structure Posting where
  finalTestId : Option String
  ecalId : Option String
  config : Json
  timestamp : Int
  created : String

def Posting.members (p : Posting) : Members :=
  (p.finalTestId.toList.map fun id => ("final_test_id",.string id)) ++
    (p.ecalId.toList.map fun id => ("ecal_id",.string id)) ++
    [("config",p.config),("timestamp",ofInt p.timestamp),("created",.string p.created)]

structure StoredAs (id : String) (members : Members) (doc : Node) : Prop where
  id : findMember doc "_id" = some (.string id)
  members : ∀ name value, members.lookup name = some value → findMember doc name = some value

end PennDaq.TestDocuments
