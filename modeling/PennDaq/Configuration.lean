import PennDaq.Lib.CString
import PennDaq.Lib.Latest
import PennDaq.Lib.Words

/-! The configuration file: `readConfigurationFile` of the server and
`read_configuration_file` of the terminal. -/
namespace PennDaq.Configuration
open Lib.CString (Text atoi sameStart isSpace)
open Lib.Latest Lib.Words

inductive Setting where
  | needToSwap | mtcXilinxLocation | defaultSSHKey | dbAddress | dbPort | dbUsername | dbPassword | dbBaseName
  | dbViewdoc | fecdbAddress | fecdbPort | fecdbUsername | fecdbPassword | fecdbBaseName | fecdbViewdoc
  | detectorDBName | detectorDBHost | detectorDBPort | detectorDBUsername | detectorDBPassword | maxPendingCons
  | xl3Port | sbcPort | tubiiPort | tubiiServer | sbcUser | sbcServer | orcaReadoutPath | contPort | contCmdAck
  | contCmdBsy | viewPort | bundlePrint | currentLocation
  deriving DecidableEq, Repr

def Setting.varName : Setting → Text
  | needToSwap => "NEED_TO_SWAP".toList
  | mtcXilinxLocation => "MTC_XILINX_LOCATION".toList
  | defaultSSHKey => "DEFAULT_SSHKEY".toList
  | dbAddress => "DB_ADDRESS".toList
  | dbPort => "DB_PORT".toList
  | dbUsername => "DB_USERNAME".toList
  | dbPassword => "DB_PASSWORD".toList
  | dbBaseName => "DB_BASE_NAME".toList
  | dbViewdoc => "DB_VIEWDOC".toList
  | fecdbAddress => "FECDB_ADDRESS".toList
  | fecdbPort => "FECDB_PORT".toList
  | fecdbUsername => "FECDB_USERNAME".toList
  | fecdbPassword => "FECDB_PASSWORD".toList
  | fecdbBaseName => "FECDB_BASE_NAME".toList
  | fecdbViewdoc => "FECDB_VIEWDOC".toList
  | detectorDBName => "DETECTOR_DB_NAME".toList
  | detectorDBHost => "DETECTOR_DB_HOST".toList
  | detectorDBPort => "DETECTOR_DB_PORT".toList
  | detectorDBUsername => "DETECTOR_DB_USERNAME".toList
  | detectorDBPassword => "DETECTOR_DB_PASSWORD".toList
  | maxPendingCons => "MAX_PENDING_CONS".toList
  | xl3Port => "XL3_PORT".toList
  | sbcPort => "SBC_PORT".toList
  | tubiiPort => "TUBII_PORT".toList
  | tubiiServer => "TUBII_SERVER".toList
  | sbcUser => "SBC_USER".toList
  | sbcServer => "SBC_SERVER".toList
  | orcaReadoutPath => "ORCA_READOUT_PATH".toList
  | contPort => "CONT_PORT".toList
  | contCmdAck => "CONT_CMD_ACK".toList
  | contCmdBsy => "CONT_CMD_BSY".toList
  | viewPort => "VIEW_PORT".toList
  | bundlePrint => "BUNDLE_PRINT".toList
  | currentLocation => "CURRENT_LOCATION".toList

def recognised : List Setting := [.needToSwap,.mtcXilinxLocation,.defaultSSHKey,.dbAddress,.dbPort,.dbUsername,
  .dbPassword,.dbBaseName,.dbViewdoc,.fecdbAddress,.fecdbPort,.fecdbUsername,.fecdbPassword,.fecdbBaseName,
  .fecdbViewdoc,.detectorDBName,.detectorDBHost,.detectorDBPort,.detectorDBUsername,.detectorDBPassword,
  .maxPendingCons,.xl3Port,.sbcPort,.tubiiPort,.tubiiServer,.sbcUser,.sbcServer,.orcaReadoutPath,.contPort,
  .contCmdAck,.contCmdBsy,.viewPort,.bundlePrint,.currentLocation]

def tutRecognised : List Setting := [.contPort,.contCmdAck,.contCmdBsy]

inductive Value where
  | number (n : Int)
  | text (t : Text)
  deriving DecidableEq, Repr

abbrev Settings := Setting → Value

def aboveGroundTeststand : Int := 0
def underground : Int := 1
def pennTeststand : Int := 2

def location (varValue : Text) : Int :=
  if sameStart 3 varValue "penn".toList then pennTeststand
  else if sameStart 2 varValue "ag".toList then aboveGroundTeststand
  else underground

/- `atoi`, `strcpy`, or the choice of a location. -/
def value (setting : Setting) (varValue : Text) : Value :=
  match setting with
  | .needToSwap | .maxPendingCons | .xl3Port | .sbcPort | .tubiiPort | .contPort | .viewPort | .bundlePrint =>
    .number (atoi varValue)
  | .currentLocation => .number (location varValue)
  | _ => .text varValue

def initially : Settings
  | .needToSwap | .maxPendingCons | .xl3Port | .sbcPort | .tubiiPort | .contPort | .viewPort | .bundlePrint
  | .currentLocation => .number 0
  | _ => .text []

def cleared (settings : Settings) : Settings
  | .dbUsername | .dbPassword | .defaultSSHKey => .text []
  | setting => settings setting

/- `char line_in[100][100]`, filled with `%s`; there is no result where a word is
written behind it. -/
def lineIn (file : Text) : Option (List Text) :=
  let found := words isSpace file
  if found.length ≤ 100 ∧ ∀ word ∈ found, word.length < 100 then some found else none

def cString (word : Text) : Text := word.takeWhile (· ≠ '\x00')

def assigned (names : List Setting) (ending : Char) (word : Text) : Option (Setting × Text) :=
  (strtok (· = '=') (cString word)).bind fun (varName,rest) =>
    (strtok (· = ending) rest).bind fun (varValue,_) =>
      if varName.head? ≠ some '#' then (names.find? fun setting => setting.varName = varName).map (·,varValue)
      else none

def assignment (word : Text) : Option (Setting × Text) := assigned recognised '\n' word

def tutAssignment (word : Text) : Option (Setting × Text) := assigned tutRecognised '=' word

def readWord (parse : Text → Option (Setting × Text)) (settings : Settings) (word : Text) : Settings :=
  match parse word with
  | some (setting,varValue) => Function.update settings setting (value setting varValue)
  | none => settings

def readConfigurationFile (settings : Settings) (file : Text) : Option Settings :=
  (lineIn file).map fun found => found.foldl (readWord assignment) (cleared settings)

def tutReadConfigurationFile (settings : Settings) (file : Text) : Option Settings :=
  (lineIn file).map fun found => found.foldl (readWord tutAssignment) settings

structure Fits (file : Text) : Prop where
  count : (words isSpace file).length ≤ 100
  size : ∀ word ∈ words isSpace file, word.length < 100

theorem lineInFits {file : Text} (fits : Fits file) : lineIn file = some (words isSpace file) :=
  if_pos ⟨fits.count,fits.size⟩

def entry (parse : Text → Option (Setting × Text)) (word : Text) : Option (Setting × Value) :=
  (parse word).map fun (setting,varValue) => (setting,value setting varValue)

theorem readEntries (parse : Text → Option (Setting × Text)) (settings : Settings) (found : List Text) :
    found.foldl (readWord parse) settings = (found.filterMap (entry parse)).foldl record settings := by
  induction found generalizing settings with
  | nil => rfl
  | cons word later ih =>
    rw [List.foldl_cons, ih, readWord]
    cases given : parse word with
    | none => rw [List.filterMap_cons_none (by rw [entry, given]; rfl)]
    | some pair =>
      rw [List.filterMap_cons_some (b := (pair.1,value pair.1 pair.2)) (by rw [entry, given]; rfl)]
      rfl

def lines (file : Text) : List Text := file.splitOnP (· = '\n')

def commented (line : Text) : Bool := line.head? == some '#'

def entries (file : Text) : List (Bool × Setting × Value) :=
  (lines file).flatMap fun line =>
    ((words isSpace line).filterMap (entry assignment)).map fun given => (commented line,given)

end PennDaq.Configuration
