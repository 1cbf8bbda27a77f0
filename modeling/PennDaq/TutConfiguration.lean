import PennDaq.Configuration

/-! Server and terminal on the same configuration file: they split a word behind its
first `=` in different ways. -/
namespace PennDaq.TutConfiguration
open Lib.CString (Text atoi isSpace digits digitOf unsign strtol)
open Lib.Latest Lib.Words
open PennDaq.Configuration

def given (file : Text) : List (Setting × Text) := (words isSpace file).filterMap assignment

def piece (e : Setting × Text) : Option (Setting × Text) :=
  if e.1 ∈ tutRecognised then (strtok (· = '=') e.2).map fun p => (e.1,p.1) else none

def Agree (file : Text) : Prop := ∃ server terminal,
  readConfigurationFile initially file = some server ∧ tutReadConfigurationFile initially file = some terminal ∧
    ∀ setting ∈ tutRecognised, server setting = terminal setting

/- The last values have no second `=`. In that of the port one may follow the digits, and
it may come first where the terminal reads a zero. -/
structure Plain (file : Text) : Prop where
  ack : ∀ v, latest .contCmdAck (given file) = some v → '=' ∉ v
  bsy : ∀ v, latest .contCmdBsy (given file) = some v → '=' ∉ v
  port : ∀ v, latest .contPort (given file) = some v → v.head? = some '=' →
    ((latest .contPort ((given file).filterMap piece)).elim 0 atoi) = 0

theorem namesDistinct : (recognised.map Setting.varName).Nodup := by decide

theorem allRecognised (setting : Setting) : setting ∈ recognised := by
  cases setting <;> decide

theorem varNameInjective {a b : Setting} (same : a.varName = b.varName) : a = b :=
  List.inj_on_of_nodup_map namesDistinct (allRecognised a) (allRecognised b) same

theorem lookedUp {names : List Setting} {name : Text} {setting : Setting} :
    (names.find? fun s => s.varName = name) = some setting ↔ setting ∈ names ∧ setting.varName = name := by
  constructor
  · intro found
    exact ⟨List.mem_of_find?_eq_some found, by simpa using List.find?_some found⟩
  · rintro ⟨mem, rfl⟩
    cases found : names.find? fun s => s.varName = setting.varName with
    | none => exact absurd (decide_eq_true rfl) (List.find?_eq_none.mp found setting mem)
    | some other => rw [varNameInjective (by simpa using List.find?_some found : other.varName = setting.varName)]

theorem tutLookedUp (name : Text) : (tutRecognised.find? fun s => s.varName = name) =
    (recognised.find? fun s => s.varName = name).bind fun s => if s ∈ tutRecognised then some s else none := by
  ext setting
  simp only [lookedUp, Option.bind_eq_some_iff, Option.ite_none_right_eq_some, Option.some.injEq]
  constructor
  · rintro ⟨mem, rfl⟩
    exact ⟨setting, ⟨allRecognised setting, rfl⟩, mem, rfl⟩
  · rintro ⟨s, ⟨-, rfl⟩, mem, rfl⟩
    exact ⟨mem, rfl⟩

theorem tutAssigned {word : Text} (clean : '\n' ∉ word) : tutAssignment word = (assignment word).bind piece := by
  unfold tutAssignment assignment assigned
  cases first : strtok (· = '=') (cString word) with
  | none => rfl
  | some pair =>
    obtain ⟨varName, rest⟩ := pair
    have inside := (strtokParts first).2.2
    simp only [Option.bind_some]
    rcases eq_or_ne rest [] with rfl | some'
    · rfl
    · have whole : strtok (· = '\n') rest = some (rest,[]) := by
        refine strtokWhole (fun x mem => ?_) some'
        have present := (List.takeWhile_sublist _).mem (inside x mem)
        exact decide_eq_false fun same => clean (same ▸ present)
      rw [whole, Option.bind_some]
      simp only [tutLookedUp]
      by_cases comment : varName.head? = some '#'
      · cases strtok (· = '=') rest <;> simp [comment]
      · simp only [ne_eq, comment, not_false_eq_true, if_true]
        cases recognised.find? fun s => s.varName = varName with
        | none => cases strtok (· = '=') rest <;> rfl
        | some setting =>
          simp only [Option.bind_some, Option.map_some, piece]
          split
          · cases strtok (· = '=') rest <;> rfl
          · cases strtok (· = '=') rest <;> rfl

theorem tutGiven (file : Text) : (words isSpace file).filterMap tutAssignment = (given file).filterMap piece := by
  rw [given, List.filterMap_filterMap]
  refine List.filterMap_congr fun word mem => tutAssigned fun newline => ?_
  have clean := wordsClean mem '\n' newline
  cases clean

theorem readLatest (parse : Text → Option (Setting × Text)) (settings : Settings) (found : List Text)
    (setting : Setting) : found.foldl (readWord parse) settings setting =
      ((latest setting (found.filterMap parse)).map (value setting)).getD (settings setting) := by
  rw [readEntries, recordLatest, ← latestMap, List.map_filterMap]
  rfl

theorem agreeLatest {file : Text} (fits : Fits file) : Agree file ↔ ∀ setting ∈ tutRecognised,
    ((latest setting (given file)).map (value setting)).getD (cleared initially setting) =
      ((latest setting ((given file).filterMap piece)).map (value setting)).getD (initially setting) := by
  unfold Agree readConfigurationFile tutReadConfigurationFile
  simp only [lineInFits fits, Option.map_some, Option.some_inj, exists_and_left, exists_eq_left', readLatest,
    tutGiven]
  rfl

theorem pieceKeys (e e' : Setting × Text) (made : piece e = some e') : e'.1 = e.1 := by
  unfold piece at made
  split at made
  · obtain ⟨p, -, rfl⟩ := Option.map_eq_some_iff.mp made
    rfl
  · cases made

theorem pieceClean {setting : Setting} {e : Setting × Text} {p : Text} (made : piece e = some (setting,p)) :
    '=' ∉ p := by
  unfold piece at made
  split at made
  · obtain ⟨q, cut, same⟩ := Option.map_eq_some_iff.mp made
    cases same
    intro mem
    exact absurd ((strtokParts cut).2.1 '=' mem) (by decide)
  · cases made

theorem givenSome {file v : Text} {setting : Setting} (found : latest setting (given file) = some v) : v ≠ [] := by
  obtain ⟨front, back, parts, -⟩ := latestSome found
  have mem : (setting,v) ∈ given file := parts ▸ List.mem_append_right front List.mem_cons_self
  obtain ⟨word, -, made⟩ := List.mem_filterMap.mp mem
  unfold assignment assigned at made
  obtain ⟨⟨varName, rest⟩, -, made⟩ := Option.bind_eq_some_iff.mp made
  obtain ⟨⟨varValue, left⟩, cut, made⟩ := Option.bind_eq_some_iff.mp made
  simp only at made
  split at made
  · obtain ⟨s, -, same⟩ := Option.map_eq_some_iff.mp made
    cases same
    exact (strtokParts cut).1
  · cases made

theorem textsAgree {file : Text} {setting : Setting} (known : setting ∈ tutRecognised) :
    (latest setting (given file)).getD [] = (latest setting ((given file).filterMap piece)).getD [] ↔
      ∀ v, latest setting (given file) = some v → '=' ∉ v := by
  cases found : latest setting (given file) with
  | none =>
    rw [latestChangedNone pieceKeys found]
    simp
  | some v =>
    simp only [Option.getD_some, Option.some.injEq, forall_eq']
    constructor
    · intro same mem
      rw [same] at mem
      cases cut : latest setting ((given file).filterMap piece) with
      | none =>
        rw [cut] at mem
        cases mem
      | some p =>
        rw [cut] at mem
        obtain ⟨e, made⟩ := latestFrom cut
        exact pieceClean made mem
    · intro clean
      have whole : piece (setting,v) = some (setting,v) := by
        rw [piece, if_pos known, strtokWhole (fun x mem => decide_eq_false fun (same : x = '=') => clean (same ▸ mem))
          (givenSome found)]
        rfl
      rw [latestChanged pieceKeys found whole]
      rfl

theorem digitsStop (base n : Nat) (front back : Text) : digits base n (front ++ '='::back) = digits base n front := by
  induction front generalizing n with
  | nil =>
    have none' : digitOf base '=' = none := by simp [digitOf]
    simp [digits, none']
  | cons c front ih =>
    rw [List.cons_append, digits, digits]
    cases digitOf base c with
    | none => rfl
    | some digit => exact ih _

theorem unsignStop (front back : Text) :
    unsign (front ++ '='::back) = ((unsign front).1,(unsign front).2 ++ '='::back) := by
  have blanks : (front ++ '='::back).dropWhile isSpace = front.dropWhile isSpace ++ '='::back := by
    rw [List.dropWhile_append]
    split
    · rename_i all
      rw [List.isEmpty_iff.mp all, List.dropWhile_cons_of_neg (by decide)]
      rfl
    · rfl
  unfold unsign
  rw [blanks]
  rcases front.dropWhile isSpace with _ | ⟨c, later⟩
  · rfl
  · rw [List.cons_append]
    split
    · rename_i same; cases same; rfl
    · rename_i same; cases same; rfl
    · rename_i minus plus
      split
      · rename_i same; cases same; exact absurd rfl (minus _)
      · rename_i same; cases same; exact absurd rfl (plus _)
      · rfl

theorem atoiStop (front back : Text) : atoi (front ++ '='::back) = atoi front := by
  rw [atoi, atoi, strtol, strtol, unsignStop]
  simp only [digitsStop]

theorem atoiStart (later : Text) : atoi ('='::later) = 0 := atoiStop [] later

theorem portsAgree (file : Text) :
    (latest .contPort (given file)).elim 0 atoi = (latest .contPort ((given file).filterMap piece)).elim 0 atoi ↔
      ∀ v, latest .contPort (given file) = some v → v.head? = some '=' →
        (latest .contPort ((given file).filterMap piece)).elim 0 atoi = 0 := by
  cases found : latest .contPort (given file) with
  | none =>
    rw [latestChangedNone pieceKeys found]
    simp
  | some v =>
    obtain ⟨c, later, rfl⟩ := List.exists_cons_of_ne_nil (givenSome found)
    simp only [Option.elim_some, Option.some.injEq, forall_eq', List.head?_cons]
    by_cases first : c = '='
    · subst first
      rw [atoiStart]
      simp [eq_comm]
    · have cut : piece (.contPort,c::later) = some (.contPort,(c::later).takeWhile fun c => !decide (c = '=')) := by
        have known : Setting.contPort ∈ tutRecognised := List.mem_cons_self
        have head := @strtokHead _ (fun c => decide (c = '=')) c (decide_eq_false first) later
        rw [piece, if_pos known, head]
        rfl
      have same : atoi ((c::later).takeWhile fun c => !decide (c = '=')) = atoi (c::later) := by
        conv => rhs; rw [← @List.takeWhile_append_dropWhile _ (fun c => !decide (c = '=')) (c::later)]
        cases rest : (c::later).dropWhile fun c => !decide (c = '=') with
        | nil => rw [List.append_nil]
        | cons d more =>
          have stop := List.head_dropWhile_not (fun c => !decide (c = '=')) (l := c::later)
            (by rw [rest]; exact List.cons_ne_nil _ _)
          simp only [rest, List.head_cons, Bool.not_eq_false', decide_eq_true_eq] at stop
          subst stop
          exact (atoiStop _ more).symm
      rw [latestChanged pieceKeys found cut, Option.elim_some, same]
      exact iff_of_true rfl fun start => absurd start first

theorem settingsAgree (file : Text) (fits : Fits file) : Agree file ↔ Plain file := by
  have texts (setting : Setting) (isText : ∀ v, value setting v = .text v) (start : initially setting = .text [])
      (kept : cleared initially setting = .text []) :
      ((latest setting (given file)).map (value setting)).getD (cleared initially setting) =
        ((latest setting ((given file).filterMap piece)).map (value setting)).getD (initially setting) ↔
      (latest setting (given file)).getD [] = (latest setting ((given file).filterMap piece)).getD [] := by
    rw [start, kept]
    cases latest setting (given file) <;> cases latest setting ((given file).filterMap piece) <;> simp [isText]
  have port : ((latest .contPort (given file)).map (value .contPort)).getD (cleared initially .contPort) =
        ((latest .contPort ((given file).filterMap piece)).map (value .contPort)).getD (initially .contPort) ↔
      (latest .contPort (given file)).elim 0 atoi =
        (latest .contPort ((given file).filterMap piece)).elim 0 atoi := by
    cases latest .contPort (given file) <;> cases latest .contPort ((given file).filterMap piece) <;>
      simp [value, cleared, initially]
  rw [agreeLatest fits]
  simp only [tutRecognised, List.forall_mem_cons]
  rw [port, portsAgree, texts .contCmdAck (fun _ => rfl) rfl rfl, textsAgree (by decide),
    texts .contCmdBsy (fun _ => rfl) rfl rfl, textsAgree (by decide)]
  constructor
  · intro all
    exact ⟨all.2.1, all.2.2.1, all.1⟩
  · intro plain
    exact ⟨plain.port, plain.ack, plain.bsy, fun _ mem => absurd mem List.not_mem_nil⟩

theorem settingsAgreeDefaults :
    Agree "CONT_PORT=44600\nCONT_CMD_ACK=_._\n".toList ↔ Plain "CONT_PORT=44600\nCONT_CMD_ACK=_._\n".toList :=
  settingsAgree _ ⟨by decide,by decide⟩

/- An acknowledge string with `=` in it, and a port behind `==`. -/
theorem secondEquals : Fits "CONT_CMD_ACK=a=b\nCONT_PORT==44600\n".toList ∧
    ¬ Agree "CONT_CMD_ACK=a=b\nCONT_PORT==44600\n".toList := by
  refine ⟨⟨by decide,by decide⟩, ?_⟩
  rintro ⟨server, terminal, ok, ok', same⟩
  have ack : (readConfigurationFile initially "CONT_CMD_ACK=a=b\nCONT_PORT==44600\n".toList).map
      (fun settings => settings .contCmdAck) = some (.text "a=b".toList) := by decide
  have ack' : (tutReadConfigurationFile initially "CONT_CMD_ACK=a=b\nCONT_PORT==44600\n".toList).map
      (fun settings => settings .contCmdAck) = some (.text "a".toList) := by decide
  rw [ok, Option.map_some, same .contCmdAck (by decide)] at ack
  rw [ok', Option.map_some, ack] at ack'
  exact absurd ack' (by decide)

end PennDaq.TutConfiguration
