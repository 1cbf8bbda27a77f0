import PennDaq.Lib.Steps
import PennDaq.ECALDocument
import PennDaq.SettingsBytes

/-! `CrateInit`: one packet buffer is filled and sent for each of the sixteen slots of a
crate. What the block of a slot holds of the slots before it. -/
namespace PennDaq.CrateInit
open Lib.CNumber
open Lib.JsonTree
open Lib.Steps
open ECALDocument
open FECSettings
open SettingsBytes

inductive Stop where
  | httpError
  | badDocument
  | outsidePacket
  deriving DecidableEq, Repr

structure Flags where
  useVBal : Bool
  useVThr : Bool
  useTDisc : Bool
  useTCmos : Bool
  useAll : Bool
  useNoise : Bool
  useHw : Bool
  enableTriggers : Bool
  tr100Delay : BitVec 32
  tr20Delay : BitVec 32
  tr20Width : BitVec 32

structure SlotInputs where
  config : FECConfiguration
  hw : Option Node
  crateCBal : Option Node
  zdisc : Option Node
  noise : Option Node
  ttot : Option Node
  cmos : Option Node

def setVBal (cbalDoc : Node) (mb : MB) : Except Stop MB :=
  let balance (name : String) (j : Fin 32) :=
    byteOf (findMember (findElement (findMember cbalDoc "channels") j) name)
  .ok { mb with vBal := fun | 0 => balance "vbal_high" | 1 => balance "vbal_low" }

def setZdisc (zdiscDoc : Node) (mb : MB) : Except Stop MB :=
  .ok { mb with vThr := fun j => byteOf (findElement (findMember zdiscDoc "upper_dac") j) }

def InPacket (p : Int) : Prop := -8 ≤ p ∧ p < 1436

instance (p : Int) : Decidable (InPacket p) := inferInstanceAs (Decidable (_ ∧ _))

/- Where `vThr[chan_num]` lies from the start of the block, and what is stored there. -/
def noiseWrite (channels : Node) (j : Nat) : Int × BitVec 8 :=
  let oneChan := findElement channels j
  let chanNum := truncate (getNumber (findMember oneChan "id"))
  (vThrStart + chanNum,byteOf (findMember oneChan "noiseless"))

/- The number of the channel comes from the document and is not checked. What it hits
of the packet outside of the block is left out. -/
def setNoiseChannel (needToSwap : Bool) (channels : Node) (mb : MB) (j : Nat) : Except Stop MB :=
  let (p,value) := noiseWrite channels j
  if InPacket p then .ok (writeByte needToSwap p value mb) else .error .outsidePacket

def setNoise (needToSwap : Bool) (noiseDoc : Node) (mb : MB) : Except Stop MB :=
  (List.range 32).foldlM (setNoiseChannel needToSwap (findMember noiseDoc "channels")) mb

def setTDisc (ttotDoc : Node) (mb : MB) : Except Stop MB :=
  let chip (j : Fin 8) := findElement (findMember ttotDoc "chips") j
  .ok { mb with tDisc := { mb.tDisc with
    rmp := fun j => byteOf (findMember (chip j) "rmp")
    vsi := fun j => byteOf (findMember (chip j) "vsi") } }

def setTCmos (cmosDoc : Node) (mb : MB) : Except Stop MB :=
  .ok { mb with tCmos := {
    vMax := byteOf (findMember cmosDoc "vmax")
    tacRef := byteOf (findMember cmosDoc "tacref")
    isetm := fun j => byteOf (findElement (findMember cmosDoc "isetm") j)
    iseta := fun j => byteOf (findElement (findMember cmosDoc "iseta") j)
    tacShift := fun j =>
      byteOf (findMember (findElement (findMember cmosDoc "channels") j) "tac_shift") } }

def fromView (config : FECConfiguration) (response : Option Node) (set : Node → MB → Except Stop MB)
    (mb : MB) : Except Stop MB :=
  if config.mbID = 0x0000#16 then .ok mb
  else match response with
    | none => .error .httpError
    | some viewdoc =>
      let viewrows := findMember viewdoc "rows"
      if getNumMems viewrows = 0 then .ok mb
      else set (findMember (findElement viewrows 0) "value") mb

def setHw (response : Option Node) (mb : MB) : Except Stop MB :=
  let rows := findMember response.join "rows"
  match parseFECHw (findMember (findElement rows 0) "value") mb with
  | some mb => .ok mb
  | none => .error .badDocument

def stepIf (wanted : Bool) (step : MB → Except Stop MB) (mb : MB) : Except Stop MB :=
  if wanted then step mb else .ok mb

def setVThr (needToSwap : Bool) (f : Flags) (inMask : Bool) (s : SlotInputs) (mb : MB) : Except Stop MB :=
  if (f.useNoise || f.useAll && !f.useVThr) && inMask then fromView s.config s.zdisc setZdisc mb
  else stepIf ((f.useVThr || f.useAll && !f.useNoise) && inMask)
    (fromView s.config s.noise (setNoise needToSwap)) mb

def fillSlot (needToSwap : Bool) (f : Flags) (debugDoc : Node) (inMask : Bool) (s : SlotInputs) (mb : MB) :
    Except Stop MB := do
  let mb := parseFECDebug debugDoc mb
  let mb ← stepIf (f.useHw && inMask) (setHw s.hw) mb
  let mb ← stepIf ((f.useVBal || f.useAll) && inMask) (fromView s.config s.crateCBal setVBal) mb
  let mb ← setVThr needToSwap f inMask s mb
  let mb ← stepIf ((f.useTDisc || f.useAll) && inMask) (fromView s.config s.ttot setTDisc) mb
  stepIf ((f.useTCmos || f.useAll) && inMask) (fromView s.config s.cmos setTCmos) mb

def setTriggers (f : Flags) (mb : MB) : MB :=
  let mask : BitVec 8 := if f.enableTriggers then 1#8 else 0#8
  { mb with
    tr100 := {
      mask := fun _ => mask
      tDelay := fun k => if f.tr100Delay ≠ 0#32 then f.tr100Delay.setWidth 8 else mb.tr100.tDelay k }
    tr20 := {
      mask := fun _ => mask
      tWidth := fun k => if f.tr20Width ≠ 0#32 then f.tr20Width.setWidth 8 else mb.tr20.tWidth k
      tDelay := fun k => if f.tr20Delay ≠ 0#32 then f.tr20Delay.setWidth 8 else mb.tr20.tDelay k } }

def toWire (needToSwap : Bool) (f : Flags) (mb : MB) : MB := setTriggers f (swapFECDB needToSwap mb)

structure Run where
  slotMask : BitVec 32
  slot : Nat → SlotInputs
  linkUp : Nat → Bool

def Run.inMask (r : Run) (i : Nat) : Bool := r.slotMask.getLsbD i

structure Sent where
  slot : Nat
  slotWord : BitVec 32
  mb : MB

/- The loop over the slots: the block that was sent is the buffer of the next slot. A
failure ends it. -/
def initLoop (needToSwap : Bool) (f : Flags) (debugDoc : Node) (r : Run) : List Nat → MB → List Sent
  | [], _ => []
  | i::later, mb =>
    match fillSlot needToSwap f debugDoc (r.inMask i) (r.slot i) mb with
    | .error _ => []
    | .ok filled =>
      if r.linkUp i then
        let sent := toWire needToSwap f filled
        ⟨i,swapLong needToSwap (BitVec.ofNat 32 i),sent⟩::initLoop needToSwap f debugDoc r later sent
      else []

def zeroBlock : MB where
  mbID := 0#16
  dbID := fun _ => 0#16
  vBal := fun _ _ => 0#8
  vThr := fun _ => 0#8
  tDisc := ⟨fun _ => 0#8,fun _ => 0#8,fun _ => 0#8,fun _ => 0#8⟩
  tCmos := ⟨0#8,0#8,fun _ => 0#8,fun _ => 0#8,fun _ => 0#8⟩
  vInt := 0#8
  hvRef := 0#8
  tr100 := ⟨fun _ => 0#8,fun _ => 0#8⟩
  tr20 := ⟨fun _ => 0#8,fun _ => 0#8,fun _ => 0#8⟩
  sCmos := fun _ => 0#16
  disableMask := 0#32

/- The FEC documents of the slots in the mask are asked for first. -/
def hwFetched (f : Flags) (r : Run) : Bool :=
  !f.useHw || (List.range 16).all fun i => !r.inMask i ||
    match (r.slot i).hw with
    | none => false
    | some hwDoc => truncate (getNumber (findMember hwDoc "total_rows")) ≠ 0

def crateInit (needToSwap : Bool) (f : Flags) (debugDoc : Node) (r : Run) : List Sent :=
  if hwFetched f r then initLoop needToSwap f debugDoc r (List.range 16) zeroBlock else []

section
variable {needToSwap : Bool} {f : Flags} {debugDoc : Node} {inMask : Bool} {s : SlotInputs}

theorem fillSame {a b : MB} (ids : SameIds a b) :
    fillSlot needToSwap f debugDoc inMask s a = fillSlot needToSwap f debugDoc inMask s b := by
  have same : parseFECDebug debugDoc a = parseFECDebug debugDoc b :=
    parseSettingsIds "tacref" "tac_shift" debugDoc a b ids.1 ids.2
  rw [fillSlot, fillSlot, same]

theorem setHwSame (response : Option Node) (a b : MB) :
    setHw response (parseFECDebug debugDoc a) = setHw response (parseFECDebug debugDoc b) := rfl

theorem fillHw (wanted : (f.useHw && inMask) = true) (a b : MB) :
    fillSlot needToSwap f debugDoc inMask s a = fillSlot needToSwap f debugDoc inMask s b := by
  simp only [fillSlot, wanted, stepIf, if_true, setHwSame s.hw a b]

theorem fillOutside (f : Flags) (debugDoc : Node) (s : SlotInputs) (before : MB) :
    fillSlot needToSwap f debugDoc false s before = .ok (parseFECDebug debugDoc before) := by
  simp only [fillSlot, setVThr, stepIf, Bool.and_false, Bool.false_eq_true, if_false]
  rfl

end

def written (writes : List (Int × BitVec 8)) (p : Int) (old : BitVec 8) : BitVec 8 :=
  writes.foldl (fun old write => if write.1 = p then write.2 else old) old

theorem writtenNone {writes : List (Int × BitVec 8)} {p : Int} (none : ∀ write ∈ writes, write.1 ≠ p)
    (old : BitVec 8) : written writes p old = old := by
  induction writes generalizing old with
  | nil => rfl
  | cons write later ih =>
    rw [List.forall_mem_cons] at none
    rw [written, List.foldl_cons, if_neg none.1]
    exact ih none.2 old

theorem writtenSome {writes : List (Int × BitVec 8)} {p : Int} (some' : ∃ write ∈ writes, write.1 = p)
    (a b : BitVec 8) : written writes p a = written writes p b := by
  induction writes generalizing a b with
  | nil => simp at some'
  | cons write later ih =>
    by_cases here : write.1 = p
    · rw [written, written, List.foldl_cons, List.foldl_cons, if_pos here, if_pos here]
    · rw [written, written, List.foldl_cons, List.foldl_cons, if_neg here, if_neg here]
      exact ih (((List.exists_mem_cons_iff ..).mp some').resolve_left here) a b

def viewed (config : FECConfiguration) (response : Option Node) : Option Node :=
  if config.mbID = 0x0000#16 then none
  else response.bind fun viewdoc =>
    let viewrows := findMember viewdoc "rows"
    if getNumMems viewrows = 0 then none else some (findMember (findElement viewrows 0) "value")

def Answers (config : FECConfiguration) (response : Option Node) : Prop :=
  config.mbID = 0x0000#16 ∨ response.isSome = true

theorem fromViewed {config : FECConfiguration} {response : Option Node} (answers : Answers config response)
    (set : Node → MB → Except Stop MB) (mb : MB) :
    fromView config response set mb = (viewed config response).elim (.ok mb) fun doc => set doc mb := by
  unfold fromView viewed
  split
  · rfl
  · rename_i known
    obtain ⟨viewdoc, rfl⟩ := Option.isSome_iff_exists.mp (answers.resolve_left known)
    dsimp only [Option.bind_some]
    split <;> rfl

theorem viewAnswers {config : FECConfiguration} {response : Option Node} {set : Node → MB → Except Stop MB}
    {before after : MB} (done : fromView config response set before = .ok after) :
    Answers config response := by
  unfold fromView at done
  split at done
  · rename_i unknown
    exact .inl unknown
  · cases response with
    | none => cases done
    | some viewdoc => exact .inr rfl

structure Effect (needToSwap : Bool) (ready : Prop) (writes : List (Int × BitVec 8))
    (step : MB → Except Stop MB) : Prop where
  succeeds : ∀ mb, (∃ after, step mb = .ok after) ↔ ready
  alike : ∀ {a b x y : MB}, Alike a b → step a = .ok x → step b = .ok y → Alike x y
  ids : ∀ {before after : MB}, step before = .ok after → ∀ word k,
    idByte needToSwap after word k = written writes (idPlace word k) (idByte needToSwap before word k)

section
variable {needToSwap : Bool}

theorem idsKept {a b : MB} (same : SameIds a b) (word : Fin 5) (k : Fin 2) :
    idByte needToSwap a word k = idByte needToSwap b word k := by
  rw [idByte, idByte, sameWords same]

theorem effectSet {set : MB → MB} (alike : ∀ {a b}, Alike a b → Alike (set a) (set b))
    (same : ∀ mb, SameIds (set mb) mb) : Effect needToSwap True [] fun mb => .ok (set mb) := by
  refine ⟨fun mb => iff_of_true ⟨_,rfl⟩ trivial, fun near one other => ?_, fun done word k => ?_⟩
  · cases one
    cases other
    exact alike near
  · cases done
    exact idsKept (same _) word k

theorem effectNone : Effect needToSwap True [] fun mb => .ok mb := effectSet id fun _ => ⟨rfl,rfl⟩

theorem effectThen {ready ready' : Prop} {first later : List (Int × BitVec 8)}
    {step next : MB → Except Stop MB} (one : Effect needToSwap ready first step)
    (two : Effect needToSwap ready' later next) :
    Effect needToSwap (ready ∧ ready') (first ++ later) fun mb => step mb >>= next := by
  refine ⟨fun mb => ⟨?_, ?_⟩, fun near done done' => ?_, fun done word k => ?_⟩
  · rintro ⟨after, done⟩
    obtain ⟨mid, begun, done⟩ := bindOk.mp done
    exact ⟨(one.succeeds mb).mp ⟨mid,begun⟩, (two.succeeds mid).mp ⟨after,done⟩⟩
  · rintro ⟨begins, ends⟩
    obtain ⟨mid, begun⟩ := (one.succeeds mb).mpr begins
    obtain ⟨after, done⟩ := (two.succeeds mid).mpr ends
    exact ⟨after, bindOk.mpr ⟨mid,begun,done⟩⟩
  · obtain ⟨mid, begun, done⟩ := bindOk.mp done
    obtain ⟨mid', begun', done'⟩ := bindOk.mp done'
    exact two.alike (one.alike near begun begun') done done'
  · obtain ⟨mid, begun, done⟩ := bindOk.mp done
    rw [two.ids done, one.ids begun, written, written, written, List.foldl_append]

theorem effectIf {ready : Prop} {writes : List (Int × BitVec 8)} {step : MB → Except Stop MB} (wanted : Bool)
    (effect : Effect needToSwap ready writes step) :
    Effect needToSwap (wanted = true → ready) (if wanted then writes else []) (stepIf wanted step) := by
  cases wanted with
  | false =>
    have none := @effectNone needToSwap
    exact ⟨fun mb => iff_of_true ⟨mb,rfl⟩ nofun, none.alike, none.ids⟩
  | true => exact ⟨fun mb => (effect.succeeds mb).trans (by simp), effect.alike, effect.ids⟩

theorem effectView {ready : Node → Prop} {writes : Node → List (Int × BitVec 8)}
    {set : Node → MB → Except Stop MB} (effect : ∀ doc, Effect needToSwap (ready doc) (writes doc) (set doc))
    (config : FECConfiguration) (response : Option Node) :
    Effect needToSwap (Answers config response ∧ ∀ doc ∈ viewed config response, ready doc)
      ((viewed config response).elim [] writes) (fromView config response set) := by
  by_cases answers : Answers config response
  · have same : fromView config response set = fun mb =>
        (viewed config response).elim (.ok mb) fun doc => set doc mb := funext (fromViewed answers set)
    rw [same]
    cases viewed config response with
    | none =>
      have none := @effectNone needToSwap
      exact ⟨fun mb => iff_of_true ⟨mb,rfl⟩ ⟨answers,nofun⟩, none.alike, none.ids⟩
    | some doc =>
      refine ⟨fun mb => ((effect doc).succeeds mb).trans ?_, (effect doc).alike, (effect doc).ids⟩
      simp [answers]
  · have fails : ∀ before after, fromView config response set before ≠ .ok after :=
      fun _ _ done => answers (viewAnswers done)
    exact ⟨fun mb => iff_of_false (fun ⟨after,done⟩ => fails mb after done) fun all => answers all.1,
      fun _ done => absurd done (fails _ _), fun done => absurd done (fails _ _)⟩

theorem effectChannel (channels : Node) (j : Nat) :
    Effect needToSwap (InPacket (noiseWrite channels j).1) [noiseWrite channels j] fun mb =>
      setNoiseChannel needToSwap channels mb j := by
  unfold setNoiseChannel
  dsimp only
  by_cases inside : InPacket (noiseWrite channels j).1
  · simp only [if_pos inside]
    refine ⟨fun mb => iff_of_true ⟨_,rfl⟩ inside, fun near one other => ?_, fun done word k => ?_⟩
    · cases one
      cases other
      exact alikeWrite needToSwap _ _ near
    · cases done
      exact idByteWrite needToSwap _ _ _ word k
  · simp only [if_neg inside]
    exact ⟨fun mb => iff_of_false (fun ⟨_,done⟩ => nomatch done) inside, nofun, nofun⟩

def noiseWrites (noiseDoc : Node) : List (Int × BitVec 8) :=
  (List.range 32).map (noiseWrite (findMember noiseDoc "channels"))

theorem effectChannels (channels : Node) (js : List Nat) :
    Effect needToSwap (∀ write ∈ js.map (noiseWrite channels), InPacket write.1)
      (js.map (noiseWrite channels)) fun mb => js.foldlM (setNoiseChannel needToSwap channels) mb := by
  induction js with
  | nil =>
    have none := @effectNone needToSwap
    exact ⟨fun mb => iff_of_true ⟨mb,rfl⟩ nofun, none.alike, none.ids⟩
  | cons j later ih =>
    have both := effectThen (@effectChannel needToSwap channels j) ih
    exact ⟨fun mb => (both.succeeds mb).trans (by simp), both.alike, both.ids⟩

theorem effectNoise (noiseDoc : Node) :
    Effect needToSwap (∀ write ∈ noiseWrites noiseDoc, InPacket write.1) (noiseWrites noiseDoc)
      (setNoise needToSwap noiseDoc) := effectChannels _ _

theorem effectVBal (doc : Node) : Effect needToSwap True [] (setVBal doc) :=
  effectSet (fun alike => by rw [← alike]; rfl) fun _ => ⟨rfl,rfl⟩

theorem effectZdisc (doc : Node) : Effect needToSwap True [] (setZdisc doc) :=
  effectSet (fun alike => by rw [← alike]; rfl) fun _ => ⟨rfl,rfl⟩

theorem effectTDisc (doc : Node) : Effect needToSwap True [] (setTDisc doc) :=
  effectSet (fun alike => by rw [← alike]; rfl) fun _ => ⟨rfl,rfl⟩

theorem effectTCmos (doc : Node) : Effect needToSwap True [] (setTCmos doc) :=
  effectSet (fun alike => by rw [← alike]; rfl) fun _ => ⟨rfl,rfl⟩

end

end PennDaq.CrateInit
