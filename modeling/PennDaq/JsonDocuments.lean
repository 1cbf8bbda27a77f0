import PennDaq.JsonWriting

/-! Documents that are written and read again: what comes back, and for which documents
nothing does. -/
namespace PennDaq.JsonDocuments
open Lib.Cursor Lib.Bracketed PennDaq.Utf8 PennDaq.StringBuffer PennDaq.JsonNumbers PennDaq.JsonText
open PennDaq.JsonStrings PennDaq.JsonParse PennDaq.JsonGrammar PennDaq.JsonWriting

section Nodes
variable {ν : Type}

@[induction_eliminator]
theorem nodeInduction {motive : JsonNode ν → Prop} (null : motive .null) (bool : ∀ value, motive (.bool value))
    (string : ∀ value, motive (.string value)) (number : ∀ value, motive (.number value))
    (array : ∀ elements, (∀ e ∈ elements, motive e) → motive (.array elements))
    (object : ∀ members, (∀ m ∈ members, motive m.2) → motive (.object members)) (node : JsonNode ν) : motive node :=
  @JsonNode.rec ν motive (fun elements => ∀ e ∈ elements, motive e) (fun members => ∀ m ∈ members, motive m.2)
    (fun m => motive m.2) null bool string number array object (by simp)
    (fun _ _ first others => List.forall_mem_cons.mpr ⟨first,others⟩) (by simp)
    (fun _ _ first others => List.forall_mem_cons.mpr ⟨first,others⟩) (fun _ _ value => value) node

mutual

def strings : JsonNode ν → List CText
  | .null => []
  | .bool _ => []
  | .string value => [value]
  | .number _ => []
  | .array elements => elementsStrings elements
  | .object members => membersStrings members

def elementsStrings : List (JsonNode ν) → List CText
  | [] => []
  | element::next => strings element ++ elementsStrings next

def membersStrings : List (CText × JsonNode ν) → List CText
  | [] => []
  | (key,value)::next => key::(strings value ++ membersStrings next)

end

theorem allElements {p : CText → Prop} (elements : List (JsonNode ν)) :
    (∀ s ∈ elementsStrings elements, p s) ↔ ∀ e ∈ elements, ∀ s ∈ strings e, p s := by
  induction elements with
  | nil => simp [elementsStrings]
  | cons element next ih => simp only [elementsStrings, List.forall_mem_append, List.forall_mem_cons, ih]

theorem allMembers {p : CText → Prop} (members : List (CText × JsonNode ν)) :
    (∀ s ∈ membersStrings members, p s) ↔ ∀ m ∈ members, p m.1 ∧ ∀ s ∈ strings m.2, p s := by
  induction members with
  | nil => simp [membersStrings]
  | cons member next ih =>
    simp only [membersStrings, List.forall_mem_append, List.forall_mem_cons, ih]
    exact and_assoc.symm

variable (doubles : Doubles ν)

mutual

def renumber : JsonNode ν → JsonNode ν
  | .null => .null
  | .bool value => .bool value
  | .string value => .string value
  | .number value =>
    if doubles.finite value then .number (doubles.strtod (doubles.print value).memory) else .null
  | .array elements => .array (renumberElements elements)
  | .object members => .object (renumberMembers members)

def renumberElements : List (JsonNode ν) → List (JsonNode ν)
  | [] => []
  | element::next => renumber element::renumberElements next

def renumberMembers : List (CText × JsonNode ν) → List (CText × JsonNode ν)
  | [] => []
  | (key,value)::next => (key,renumber value)::renumberMembers next

end

theorem renumberElementsMap (elements : List (JsonNode ν)) :
    renumberElements doubles elements = elements.map (renumber doubles) := by
  induction elements with
  | nil => rfl
  | cons element next ih => rw [renumberElements, ih, List.map_cons]

theorem renumberMembersMap (members : List (CText × JsonNode ν)) :
    renumberMembers doubles members = members.map fun m => (m.1,renumber doubles m.2) := by
  induction members with
  | nil => rfl
  | cons member next ih => rw [renumberMembers, ih, List.map_cons]

theorem spacedNothing {marks : Marks UInt8} : marks.Blank [] := List.forall_mem_nil _

def compact (marks : Marks UInt8) : Layout marks where
  opens := SB.sbPutc marks.opening
  before := nothing
  between := SB.sbPutc marks.separator
  last := nothing
  closes := SB.sbPutc marks.closing
  inside := []
  front := []
  middle := []
  back := []
  outside := []
  emitsInside := emitsPutc marks.opening
  emitsFront := emitsNothing
  emitsMiddle := emitsPutc marks.separator
  emitsBack := emitsNothing
  emitsOutside := emitsPutc marks.closing
  spacedInside := spacedNothing
  spacedFront := spacedNothing
  spacedMiddle := spacedNothing
  spacedBack := spacedNothing
  spacedOutside := spacedNothing

def indentation (space : Text) : Nat → Text
  | 0 => []
  | level+1 => space ++ indentation space level

theorem emitsIndent {space : Text} (countable : 0 ≤ intOf space.length) (level : Nat) :
    Emits (indent space level) (indentation (counted space) level) := by
  induction level with
  | zero => exact emitsNothing
  | succ level ih => exact emitsAlso (emitsCounted countable) ih

theorem spacedIndent {marks : Marks UInt8} {space : Text} (spaced : marks.Blank space) (level : Nat) :
    marks.Blank (indentation space level) := by
  induction level with
  | zero => exact spacedNothing
  | succ level ih => exact Marks.blankAppend spaced ih

theorem spacedNewline {marks : Marks UInt8} (newline : marks.blank 0x0A = true) : marks.Blank [0x0A] :=
  List.forall_mem_singleton.mpr newline

theorem spacedCounted {marks : Marks UInt8} {space : Text} (spaced : marks.Blank space) : marks.Blank (counted space) :=
  fun c inside => spaced c (List.mem_of_mem_take inside)

def indented {marks : Marks UInt8} (newline : marks.blank 0x0A = true) {space : Text} (spaced : marks.Blank space)
    (countable : 0 ≤ intOf space.length) (level : Nat) : Layout marks where
  opens := SB.sbPuts [marks.opening,0x0A]
  before := indent space (level+1)
  between := SB.sbPuts [marks.separator,0x0A]
  last := SB.sbPuts [0x0A]
  closes := also (indent space level) (SB.sbPutc marks.closing)
  inside := [0x0A]
  front := indentation (counted space) (level+1)
  middle := [0x0A]
  back := [0x0A]
  outside := indentation (counted space) level
  emitsInside := emitsPuts [marks.opening,0x0A] (by simp)
  emitsFront := emitsIndent countable (level+1)
  emitsMiddle := emitsPuts [marks.separator,0x0A] (by simp)
  emitsBack := emitsPuts [0x0A] (by simp)
  emitsOutside := emitsAlso (emitsIndent countable level) (emitsPutc marks.closing)
  spacedInside := spacedNewline newline
  spacedFront := spacedIndent (spacedCounted spaced) (level+1)
  spacedMiddle := spacedNewline newline
  spacedBack := spacedNewline newline
  spacedOutside := spacedIndent (spacedCounted spaced) level

theorem alsoAlso (first second third : Emit) : also (also first second) third = also first (also second third) := by
  funext out
  exact Option.bind_assoc _ _ _

theorem emitElementsItems (elements : List (JsonNode ν)) :
    emitElements doubles elements = (compact arrayMarks).emitItems (emitValue doubles) elements := by
  induction elements with
  | nil => rfl
  | cons element next ih =>
    rw [emitElements, Layout.emitItems, ih]
    rfl

def emitMember (member : CText × JsonNode ν) : Emit :=
  also (emitString member.1.memory) (also (SB.sbPutc ':'.toUInt8) (emitValue doubles member.2))

theorem emitMembersItems (members : List (CText × JsonNode ν)) :
    emitMembers doubles members = (compact objectMarks).emitItems (emitMember doubles) members := by
  induction members with
  | nil => rfl
  | cons member next ih =>
    rw [emitMembers, Layout.emitItems, ih, emitMember, alsoAlso, alsoAlso]
    rfl

theorem newlineArray : arrayMarks.blank 0x0A = true := by decide

theorem newlineObject : objectMarks.blank 0x0A = true := by decide

theorem emitElementsIndentedItems {space : Text} (spaced : Spaces space) (countable : 0 ≤ intOf space.length) (level : Nat)
    (elements : List (JsonNode ν)) :
    emitElementsIndented doubles space level elements =
      (indented newlineArray spaced countable level).emitItems (emitValueIndented doubles space (level+1)) elements := by
  induction elements with
  | nil => rfl
  | cons element next ih =>
    rw [emitElementsIndented, Layout.emitItems, ih]
    cases next with
    | nil | cons => rfl

def emitMemberIndented (space : Text) (level : Nat) (member : CText × JsonNode ν) : Emit :=
  also (emitString member.1.memory) (also (SB.sbPuts [':'.toUInt8,0x20]) (emitValueIndented doubles space level member.2))

theorem emitMembersIndentedItems {space : Text} (spaced : Spaces space) (countable : 0 ≤ intOf space.length) (level : Nat)
    (members : List (CText × JsonNode ν)) :
    emitMembersIndented doubles space level members =
      (indented newlineObject spaced countable level).emitItems (emitMemberIndented doubles space (level+1)) members := by
  induction members with
  | nil => rfl
  | cons member next ih =>
    rw [emitMembersIndented, Layout.emitItems, ih, emitMemberIndented, alsoAlso, alsoAlso]
    cases next with
    | nil | cons => rfl

def WritesNode (doubles : Doubles ν) (emit : Emit) (node : JsonNode ν) : Prop :=
  Writes emit (∀ s ∈ strings node, Valid s) (∀ s ∈ strings node, Clean s) (ValueText doubles (renumber doubles node))

variable {doubles}

theorem writesPlain {emit : Emit} {text : Text} {node : JsonNode ν} (emits : Emits emit text) (apart : 0 ∉ text)
    (none : strings node = []) (offered : ValueText doubles (renumber doubles node) text) : WritesNode doubles emit node := by
  refine writesSame (writesText emits apart) (by simp [none]) (by simp [none]) ?_
  intro text same
  rwa [same]

theorem writesString' (str : CText) : WritesNode doubles (emitString str.memory) (.string str) :=
  writesSame (writesString str) (by simp [strings]) (by simp [strings]) fun text offered => .string offered

theorem writesBool (value : Bool) : WritesNode doubles (SB.sbPuts (if value then true' else false')) (.bool value) := by
  have apart : 0 ∉ (if value then true' else false') := by
    cases value with
    | false | true => decide
  have short : (if value then true' else false').length < 2^31 := by
    cases value with
    | false | true => decide
  exact writesPlain (emitsPuts _ short) apart rfl .bool

theorem writesNumber (value : ν) : WritesNode doubles (emitNumber doubles value) (.number value) := by
  unfold emitNumber
  dsimp only
  split
  case isTrue valid =>
    have short : (doubles.print value).bytes.length < 2^31 := Nat.lt_trans (doubles.short value) (by decide)
    refine writesPlain (emitsPuts _ short) (doubles.print value).apart rfl ?_
    rw [renumber, if_pos ((doubles.prints value).mp (numberIsValidExact.mp valid))]
    exact .number (numberIsValidExact.mp valid)
  case isFalse invalid =>
    refine writesPlain (emitsPuts null (by decide)) (by decide) rfl ?_
    rw [renumber, if_neg fun finite => invalid (numberIsValidExact.mpr ((doubles.prints value).mpr finite))]
    exact .null

theorem arrayApart : Apart arrayMarks := ⟨by decide,by decide,by decide,by decide⟩

theorem objectApart : Apart objectMarks := ⟨by decide,by decide,by decide,by decide⟩

theorem writesArray (layout : Layout arrayMarks) {item : JsonNode ν → Emit} {elements : List (JsonNode ν)}
    (some : elements ≠ []) (each : ∀ e ∈ elements, WritesNode doubles (item e) e) :
    WritesNode doubles (layout.emit item elements) (.array elements) := by
  refine writesSame (layout.writesSequence arrayApart some each) (allElements _).symm (allElements _).symm ?_
  intro text derived
  rw [renumber, renumberElementsMap]
  exact .array derived

theorem writesMember (key : CText) {node : JsonNode ν} {blank : Text} {emitColon emitNode : Emit} {valid clean : Prop}
    (emits : Emits emitColon (':'.toUInt8::blank)) (spaced : Spaces blank)
    (writes : Writes emitNode valid clean (ValueText doubles node)) :
    Writes (also (emitString key.memory) (also emitColon emitNode)) (Valid key ∧ valid) (Clean key ∧ clean)
      (MemberText (ValueText doubles) (key,node)) := by
  have apart : 0 ∉ ':'.toUInt8::blank :=
    List.not_mem_cons_of_ne_of_not_mem (by decide) (@spacesApart _ objectApart blank spaced)
  refine writesSame (writesAlso (writesString key) (writesAlso (writesText emits apart) writes)) (by simp) (by simp) ?_
  intro text written
  obtain ⟨name, _, same, offered, _, item, rfl, rfl, offered'⟩ := written
  have derived : MemberText (ValueText doubles) (key,node) (name ++ ([] ++ ':'.toUInt8::(blank ++ item))) :=
    .mk offered (List.forall_mem_nil _) spaced offered'
  rw [same]
  simpa using derived

theorem writesObject (layout : Layout objectMarks) {item : JsonNode ν → Emit} {emitColon : Emit} {blank : Text}
    (emits : Emits emitColon (':'.toUInt8::blank)) (spaced : Spaces blank) {members : List (CText × JsonNode ν)}
    (some : members ≠ []) (each : ∀ m ∈ members, WritesNode doubles (item m.2) m.2) :
    WritesNode doubles (layout.emit (fun m => also (emitString m.1.memory) (also emitColon (item m.2))) members)
      (.object members) := by
  have sequence := layout.writesSequence objectApart some fun m inside => writesMember m.1 emits spaced (each m inside)
  refine writesSame sequence (allMembers _).symm (allMembers _).symm ?_
  intro text derived
  rw [renumber, renumberMembersMap]
  exact .object derived

theorem writesNoElement {emit : Emit} (emits : Emits emit ['['.toUInt8,']'.toUInt8]) :
    WritesNode doubles emit (.array []) :=
  writesPlain emits (by decide) rfl (.array (@Marks.SequenceText.none _ _ arrayMarks _ [] spacedNothing))

theorem writesNoMember {emit : Emit} (emits : Emits emit ['\x7b'.toUInt8,'\x7d'.toUInt8]) :
    WritesNode doubles emit (.object []) :=
  writesPlain emits (by decide) rfl (.object (@Marks.SequenceText.none _ _ objectMarks _ [] spacedNothing))

theorem writesValue (node : JsonNode ν) : WritesNode doubles (emitValue doubles node) node := by
  induction node with
  | null => exact writesPlain (emitsPuts null (by decide)) (by decide) rfl .null
  | bool value => exact writesBool value
  | string value => exact writesString' value
  | number value => exact writesNumber value
  | array elements ih =>
    cases elements with
    | nil => exact writesNoElement (emitsAlso (emitsPutc _) (emitsAlso emitsNothing (emitsPutc _)))
    | cons first next =>
      rw [emitValue, emitElementsItems]
      exact writesArray (compact arrayMarks) (by simp) ih
  | object members ih =>
    cases members with
    | nil => exact writesNoMember (emitsAlso (emitsPutc _) (emitsAlso emitsNothing (emitsPutc _)))
    | cons first next =>
      rw [emitValue, emitMembersItems]
      exact writesObject (compact objectMarks) (emitsPutc _) (List.forall_mem_nil _) (by simp) ih

/- There is something to indent. -/
def Nested : JsonNode ν → Prop
  | .array elements => elements ≠ []
  | .object members => members ≠ []
  | _ => False

theorem writesValueIndented {space : Text} (spaced : Spaces space) (level : Nat) (node : JsonNode ν)
    (countable : Nested node → 0 ≤ intOf space.length) : WritesNode doubles (emitValueIndented doubles space level node) node := by
  induction node generalizing level with
  | null => exact writesPlain (emitsPuts null (by decide)) (by decide) rfl .null
  | bool value => exact writesBool value
  | string value => exact writesString' value
  | number value => exact writesNumber value
  | array elements ih =>
    cases elements with
    | nil => exact writesNoElement (emitsPuts ['['.toUInt8,']'.toUInt8] (by decide))
    | cons first next =>
      have countable := countable (List.cons_ne_nil first next)
      rw [emitValueIndented, if_neg (by simp), emitElementsIndentedItems doubles spaced countable]
      exact writesArray (indented newlineArray spaced countable level) (by simp) fun e inside =>
        ih e inside (level+1) fun _ => countable
  | object members ih =>
    cases members with
    | nil => exact writesNoMember (emitsPuts ['\x7b'.toUInt8,'\x7d'.toUInt8] (by decide))
    | cons first next =>
      have countable := countable (List.cons_ne_nil first next)
      rw [emitValueIndented, if_neg (by simp), emitMembersIndentedItems doubles spaced countable]
      exact writesObject (indented newlineObject spaced countable level) (emitsPuts [':'.toUInt8,0x20] (by decide))
        (List.forall_mem_singleton.mpr (by decide)) (by simp) fun m inside => ih m inside (level+1) fun _ => countable

theorem indentsNothing {space : Text} (negative : intOf space.length < 0) (level : Nat) {node : JsonNode ν}
    (nested : Nested node) (sb : SB) : emitValueIndented doubles space level node sb = none := by
  have first (later : Emit) (sb : SB) : also (indent space (level+1)) later sb = none :=
    alsoFailsFirst (alsoFailsFirst (putsFails negative)) sb
  cases node with
  | null | bool | string | number => cases nested
  | array elements => cases elements with
    | nil => cases nested rfl
    | cons element next =>
      rw [emitValueIndented, if_neg (by simp), emitElementsIndented]
      exact alsoFails (alsoFailsFirst (first _)) sb
  | object members => cases members with
    | nil => cases nested rfl
    | cons member next =>
      rw [emitValueIndented, if_neg (by simp), emitMembersIndented]
      exact alsoFails (alsoFailsFirst (first _)) sb

/- What is to be indented has an indentation that `sb_puts` can write. -/
def Indents (space : Option CText) (node : JsonNode ν) : Prop :=
  Nested node → ∀ text ∈ space, 0 ≤ intOf text.bytes.length

theorem hexTextWithout {value : UInt16} {text : Text} (offered : HexText value text) : 0x1F ∉ text := by
  have digit : ∀ c : UInt8, hexDigit c ≠ none → 0x1F ≠ c := everyByte (by decide +kernel)
  cases offered with
  | mk first second third fourth _ =>
    simp [digit, first, second, third, fourth]

theorem charTextWithout {value text : Text} (offered : CharText value text) : 0x1F ∉ text := by
  cases offered with
  | plain notControl _ _ =>
    intro inside
    have same := lowEncoded inside (by decide)
    change _ = 31 at same
    omega
  | @short letter _ escaped =>
    have other : 0x1F ≠ letter := fun same => by
      rw [← same] at escaped
      cases escaped
    simp [other]
    decide
  | code digits _ _ =>
    have inner := hexTextWithout digits
    simp [inner]
    decide
  | pair high low _ =>
    have inner := hexTextWithout high
    have inner' := hexTextWithout low
    simp [inner, inner']
    decide

theorem charsTextWithout {value text : Text} (offered : CharsText value text) : 0x1F ∉ text := by
  induction offered with
  | none => simp
  | more first _ ih => simp [charTextWithout first, ih]

theorem stringTextWithout {value text : Text} (offered : StringText value text) : 0x1F ∉ text := by
  cases offered with
  | mk chars =>
    simp [charsTextWithout chars]
    decide

def numeric (c : UInt8) : Bool := isDigit c || isMinus c || isPoint c || isExponent c || isSign c

theorem digitsNumeric {text : Text} (offered : Digits text) : ∀ c ∈ text, numeric c = true := fun c inside => by
  unfold numeric
  rw [offered.2 c inside, Bool.true_or, Bool.true_or, Bool.true_or, Bool.true_or]

theorem integerNumeric {text : Text} (offered : IntegerText text) : ∀ c ∈ text, numeric c = true := by
  cases offered with
  | zero => exact List.forall_mem_singleton.mpr (by decide)
  | digits more _ => exact digitsNumeric more

theorem fractionNumeric {text : Text} (offered : FractionText text) : ∀ c ∈ text, numeric c = true := by
  cases offered with
  | none => exact List.forall_mem_nil _
  | some more => exact List.forall_mem_cons.mpr ⟨by decide,digitsNumeric more⟩

theorem exponentNumeric {text : Text} (offered : ExponentText text) : ∀ c ∈ text, numeric c = true := by
  cases offered with
  | none => exact List.forall_mem_nil _
  | @some c _ _ mark signed more =>
    have first : numeric c = true := by
      unfold numeric
      rw [mark, Bool.or_true, Bool.true_or]
    refine List.forall_mem_cons.mpr ⟨first,List.forall_mem_append.mpr ⟨?_,digitsNumeric more⟩⟩
    cases signed with
    | none => exact List.forall_mem_nil _
    | some sign =>
      refine List.forall_mem_singleton.mpr ?_
      unfold numeric
      rw [sign, Bool.or_true]

theorem numberNumeric {text : Text} (offered : NumberText text) : ∀ c ∈ text, numeric c = true := by
  cases offered with
  | plain first second third =>
    exact List.forall_mem_append.mpr ⟨integerNumeric first,
      List.forall_mem_append.mpr ⟨fractionNumeric second,exponentNumeric third⟩⟩
  | minus first second third =>
    exact List.forall_mem_cons.mpr ⟨by decide,List.forall_mem_append.mpr ⟨integerNumeric first,
      List.forall_mem_append.mpr ⟨fractionNumeric second,exponentNumeric third⟩⟩⟩

theorem numberTextWithout {text : Text} (offered : NumberText text) : 0x1F ∉ text := fun inside => by
  cases numberNumeric offered _ inside

theorem memberTextWithout {lang : JsonNode ν → Text → Prop} {most : Nat}
    (each : ∀ node text, lang node text → text.length ≤ most → 0x1F ∉ text) :
    ∀ member text, MemberText lang member text → text.length ≤ most → 0x1F ∉ text := by
  intro member text offered short
  cases offered with
  | mk name spaced spaced' item =>
    simp only [List.length_append, List.length_cons] at short
    have before := @Marks.blankWithout _ objectMarks 0x1F _ (by decide) spaced
    have after := @Marks.blankWithout _ objectMarks 0x1F _ (by decide) spaced'
    have inner := each _ _ item (by omega)
    simp [stringTextWithout name, before, after, inner]
    decide

theorem valueTextWithout (most : Nat) :
    ∀ node text, ValueText doubles node text → text.length ≤ most → 0x1F ∉ text := by
  induction most with
  | zero =>
    intro node text offered short
    rw [List.eq_nil_of_length_eq_zero (Nat.le_zero.mp short)]
    exact List.not_mem_nil
  | succ most ih =>
    intro node text offered short
    cases offered with
    | null => decide
    | @bool value =>
      cases value with
      | false | true => decide
    | string offered => exact stringTextWithout offered
    | number offered => exact numberTextWithout offered
    | array offered =>
      exact Marks.sequenceWithout (by decide) (by decide) (by decide) (by decide) ih offered short
    | object offered =>
      exact Marks.sequenceWithout (by decide) (by decide) (by decide) (by decide) (memberTextWithout ih) offered short

theorem documentTextWithout {node : JsonNode ν} {text : Text} (offered : DocumentText doubles node text) :
    0x1F ∉ text := by
  cases offered with
  | mk spaced value spaced' =>
    have before := @Marks.blankWithout _ objectMarks 0x1F _ (by decide) spaced
    have after := @Marks.blankWithout _ objectMarks 0x1F _ (by decide) spaced'
    simp [before, after, valueTextWithout _ _ _ value (Nat.le_refl _)]

theorem stringifyRead (doubles : Doubles ν) (node : JsonNode ν) (space : Option CText)
    (spaced : ∀ text ∈ space, Spaces text.bytes) :
    ((∀ s ∈ strings node, Valid s) ∧ Indents space node ∧ ∃ json, jsonStringify doubles node space = some json ∧
      ((∀ s ∈ strings node, Clean s) → jsonDecode doubles json.memory = .done (renumber doubles node) [0]) ∧
      ((¬∀ s ∈ strings node, Clean s) → jsonDecode doubles json.memory = .failed)) ∨
    ¬((∀ s ∈ strings node, Valid s) ∧ Indents space node) ∧ jsonStringify doubles node space = none := by
  by_cases indents : Indents space node
  case neg =>
    refine Or.inr ⟨fun both => indents both.2,?_⟩
    have tooLong : Nested node ∧ ∃ text ∈ space, intOf text.bytes.length < 0 := by
      by_contra none
      exact indents fun nested text same => Int.not_lt.mp fun negative => none ⟨nested,text,same,negative⟩
    obtain ⟨nested, text, rfl, negative⟩ := tooLong
    rw [jsonStringify, Option.bind_eq_bind]
    dsimp only
    rw [indentsNothing negative 0 nested, Option.bind_none]
  have writes : ∃ emit, jsonStringify doubles node space = (emit SB.sbInit).bind SB.sbFinish ∧
      WritesNode doubles emit node := by
    cases space with
    | none => exact ⟨_,rfl,writesValue node⟩
    | some text => exact ⟨_,rfl,writesValueIndented (spaced text rfl) 0 node fun nested => indents nested text rfl⟩
  obtain ⟨emit, same, writes⟩ := writes
  rcases writes with ⟨valid, text, emits, apart, derived, control⟩ | ⟨invalid, nothing⟩
  · obtain ⟨sb, done, bytes⟩ := emits SB.sbInit
    have stored : sb.bytes = text := bytes
    have finished : jsonStringify doubles node space = some ⟨text,apart⟩ := by
      rw [same, done, Option.bind_some, SB.sbFinishSome (stored ▸ apart)]
      simp only [stored]
    refine Or.inl ⟨valid,indents,_,finished,fun clean => ?_,fun dirty => decodeFails fun offered => ?_⟩
    · have document : DocumentText doubles (renumber doubles node) ([] ++ (text ++ [])) :=
        .mk (List.forall_mem_nil _) (derived clean) (List.forall_mem_nil _)
      rw [List.append_nil] at document
      exact decodeTakes document
    · obtain ⟨_, document⟩ := offered
      exact documentTextWithout document (control dirty)
  · exact Or.inr ⟨fun both => invalid both.1,by rw [same, nothing, Option.bind_none]⟩

/- Only a string that is not in UTF-8, or an indentation that `sb_puts` cannot write, keeps a value
from being written, and only the byte 0x1F in a string keeps what was written from being read. -/
theorem writtenThenRead (doubles : Doubles ν) (node : JsonNode ν) (space : Option CText)
    (spaced : ∀ text ∈ space, Spaces text.bytes) :
    (jsonStringify doubles node space = none ↔ ¬((∀ s ∈ strings node, Valid s) ∧ Indents space node)) ∧
      ∀ json, jsonStringify doubles node space = some json →
        (jsonDecode doubles json.memory = .done (renumber doubles node) [0] ↔ ∀ s ∈ strings node, Clean s) ∧
        (jsonDecode doubles json.memory = .failed ↔ ¬∀ s ∈ strings node, Clean s) := by
  rcases stringifyRead doubles node space spaced with
    ⟨valid, indents, text, finished, clean, dirty⟩ | ⟨invalid, nothing⟩
  · rw [finished]
    refine ⟨by simp only [reduceCtorEq, false_iff, not_not]; exact ⟨valid,indents⟩,fun json written => ?_⟩
    cases written
    constructor
    · refine ⟨fun read => ?_,clean⟩
      by_contra not
      rw [dirty not] at read
      cases read
    · refine ⟨fun read not => ?_,dirty⟩
      rw [clean not] at read
      cases read
  · rw [nothing]
    refine ⟨iff_of_true rfl invalid,fun json written => ?_⟩
    cases written

end Nodes

def standing (s : Text) : Text := s.takeWhile numeric

theorem standingApart (s : Text) : 0 ∉ standing s := fun inside => by
  cases List.all_eq_true.mp List.all_takeWhile 0 inside

theorem standingStops (text rest : Text) (offered : NumberText text) (behind : Follows Delimiter rest) :
    standing (text ++ rest) = text := by
  have delimiterNotNumeric : ∀ c, Delimiter c → numeric c = false := everyByte (by
    unfold Delimiter
    decide +kernel)
  obtain ⟨c, later, rfl, delimiter⟩ := behind
  unfold standing
  rw [List.takeWhile_append_of_pos (numberNumeric offered), List.takeWhile_cons, delimiterNotNumeric c delimiter]
  simp

theorem standingEnds (text rest : Text) (offered : NumberText text) (behind : Follows Delimiter rest) :
    (⟨standing (text ++ rest),standingApart _⟩ : CText) = ⟨standing (text ++ [0]),standingApart _⟩ := by
  have closed : Follows Delimiter [0] := ⟨0,[],rfl,by simp [Delimiter]⟩
  simp only [standingStops text rest offered behind, standingStops text [0] offered closed]

theorem shortenedApart (s : CText) : 0 ∉ s.bytes.take 63 := fun inside => s.apart (List.mem_of_mem_take inside)

def shortened (s : CText) : CText := ⟨s.bytes.take 63,shortenedApart s⟩

theorem shortenedShort (s : CText) : (shortened s).bytes.length < 64 := Nat.lt_succ_of_le (List.length_take_le 63 _)

theorem shortenedValid (s : CText) : NumberText (shortened s).bytes ↔ numberIsValid (shortened s) = true :=
  numberIsValidExact.symm

def texts : Doubles CText where
  print := shortened
  finite := fun s => numberIsValid (shortened s)
  prints := shortenedValid
  short := shortenedShort
  strtod := fun s => ⟨standing s,standingApart s⟩
  stops := standingEnds

theorem halfApart : 0 ∉ ['-'.toUInt8,'0'.toUInt8,'.'.toUInt8,'5'.toUInt8] := by decide

theorem unitApart : 0 ∉ ([0x1F] : Text) := by decide

def half : JsonNode CText := .number ⟨_,halfApart⟩

def unit : CText := ⟨[0x1F],unitApart⟩

theorem blankApart : 0 ∉ ([0x20] : Text) := by decide

def blank : CText := ⟨[0x20],blankApart⟩

theorem documentApart : 0 ∉ [0x20,'['.toUInt8,'-'.toUInt8,'0'.toUInt8,'.'.toUInt8,'5'.toUInt8,','.toUInt8,'"'.toUInt8,
    '\\'.toUInt8,'n'.toUInt8,'"'.toUInt8,0x0A,']'.toUInt8] := by decide

theorem newlineApart : 0 ∉ ([0x0A] : Text) := by decide

def newline : CText := ⟨[0x0A],newlineApart⟩

theorem refusedApart : 0 ∉ ['['.toUInt8,'0'.toUInt8,'1'.toUInt8,']'.toUInt8] := by decide

/- An array with a number and an escaped newline, and one with a number that JSON has not. -/
theorem jsonDecodeExactArrays : DocumentText texts (.array [half,.string newline]) [0x20,'['.toUInt8,'-'.toUInt8,'0'.toUInt8,
      '.'.toUInt8,'5'.toUInt8,','.toUInt8,'"'.toUInt8,'\\'.toUInt8,'n'.toUInt8,'"'.toUInt8,0x0A,']'.toUInt8] ∧
    ¬∃ node, DocumentText texts node ['['.toUInt8,'0'.toUInt8,'1'.toUInt8,']'.toUInt8] :=
  ⟨((jsonDecodeExact texts ⟨_,documentApart⟩).1 _).mp rfl,(jsonDecodeExact texts ⟨_,refusedApart⟩).2.mp rfl⟩

/- What is written for the byte 0x1F is not read. -/
theorem writtenThenReadUnit : ∃ json, jsonStringify texts (.array [half,.string unit]) (some blank) = some json ∧
    jsonDecode texts json.memory = .failed := by
  have spaced : ∀ text ∈ some blank, Spaces text.bytes := by
    intro text same
    cases same
    exact List.forall_mem_singleton.mpr (by decide)
  have held := writtenThenRead texts (.array [half,.string unit]) (some blank) spaced
  obtain ⟨refused, read⟩ := held
  have all : ∀ p : CText → Prop, (∀ s ∈ strings (.array [half,.string unit]), p s) ↔ p unit := fun p => by
    simp [strings, elementsStrings, half]
  rw [all] at refused
  have valid : Valid unit := ⟨[Char.ofNat 0x1F],by decide⟩
  have indents : Indents (some blank) (.array [half,.string unit]) := by
    intro _ text same
    cases same
    decide
  obtain ⟨json, written⟩ := Option.ne_none_iff_exists'.mp fun none => refused.mp none ⟨valid,indents⟩
  refine ⟨json,written,(read json written).2.mpr ?_⟩
  rw [all]
  unfold Clean unit
  decide

example : (jsonStringify texts (.array [half,.object []]) none).map CText.bytes =
    some ['['.toUInt8,'-'.toUInt8,'0'.toUInt8,'.'.toUInt8,'5'.toUInt8,','.toUInt8,'\x7b'.toUInt8,'\x7d'.toUInt8,']'.toUInt8] := by
  decide +kernel

end PennDaq.JsonDocuments
