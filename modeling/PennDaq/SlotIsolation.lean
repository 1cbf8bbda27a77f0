import Mathlib.Tactic.FinCases
import Mathlib.Tactic.IntervalCases
import PennDaq.CrateInit

/-! Whether the block that `CrateInit` sends for a slot is that of the slot's own
documents. -/
namespace PennDaq.SlotIsolation
open Lib.CNumber
open Lib.JsonTree
open Lib.Steps
open ECALDocument
open FECSettings
open SettingsBytes
open CrateInit

def usesZdisc (f : Flags) : Bool := f.useNoise || f.useAll && !f.useVThr
def usesNoise (f : Flags) : Bool := f.useVThr && !f.useNoise

def noiseWritesOf (f : Flags) (inMask : Bool) (s : SlotInputs) : List (Int × BitVec 8) :=
  if usesNoise f && inMask then (viewed s.config s.noise).elim [] noiseWrites else []

/- The tests' documents that the slot needs have come, and its noise document stays
inside the packet. -/
structure Readable (f : Flags) (inMask : Bool) (s : SlotInputs) : Prop where
  cbal : ((f.useVBal || f.useAll) && inMask) = true → Answers s.config s.crateCBal
  zdisc : (usesZdisc f && inMask) = true → Answers s.config s.zdisc
  noise : (usesNoise f && inMask) = true → Answers s.config s.noise ∧
    ∀ doc ∈ viewed s.config s.noise, ∀ write ∈ noiseWrites doc, InPacket write.1
  ttot : ((f.useTDisc || f.useAll) && inMask) = true → Answers s.config s.ttot
  cmos : ((f.useTCmos || f.useAll) && inMask) = true → Answers s.config s.cmos

def WritesIds (f : Flags) (inMask : Bool) (s : SlotInputs) : Prop :=
  ∀ word k, ∃ write ∈ noiseWritesOf f inMask s, write.1 = idPlace word k

/- The slot is the first, or its FEC document or its noise document writes the ids, or
no slot writes any, or the slot's documents are not there. -/
def IdsOwn (f : Flags) (i : Nat) (inMask : Bool) (s : SlotInputs) : Prop :=
  i = 0 ∨ (f.useHw && inMask) = true ∨ WritesIds f inMask s ∨ (f.useHw || usesNoise f) = false ∨
    ¬Readable f inMask s

section
variable {needToSwap : Bool} {f : Flags} {debugDoc : Node} {inMask : Bool} {s : SlotInputs}

theorem setVThrThen (mb : MB) : setVThr needToSwap f inMask s mb =
    stepIf (usesZdisc f && inMask) (fromView s.config s.zdisc setZdisc) mb >>=
      stepIf (usesNoise f && inMask) (fromView s.config s.noise (setNoise needToSwap)) := by
  obtain ⟨useVBal, useVThr, useTDisc, useTCmos, useAll, useNoise, useHw⟩ := f
  have last (x : Except Stop MB) : x >>= (fun mb => .ok mb) = x := by cases x <;> rfl
  cases inMask <;> cases useVThr <;> cases useAll <;> cases useNoise <;>
    first | rfl | exact (last _).symm

theorem viewNothing {set : Node → MB → Except Stop MB} (effect : ∀ doc, Effect needToSwap True [] (set doc))
    (wanted : Bool) (config : FECConfiguration) (response : Option Node) :
    Effect needToSwap (wanted = true → Answers config response) []
      (stepIf wanted (fromView config response set)) := by
  have none : (viewed config response).elim [] (fun _ => ([] : List (Int × BitVec 8))) = [] := by
    cases viewed config response <;> rfl
  have view := effectIf wanted (effectView effect config response)
  rw [none, ite_self] at view
  exact ⟨fun mb => (view.succeeds mb).trans (by simp), view.alike, view.ids⟩

/- The steps of the tests: the block behind the ids does not depend on them, and only
the noise document writes into them. -/
theorem fillTests (needToSwap : Bool) (f : Flags) (inMask : Bool) (s : SlotInputs) :
    ∃ tests, Effect needToSwap (Readable f inMask s) (noiseWritesOf f inMask s) tests ∧
      ∀ debugDoc before, fillSlot needToSwap f debugDoc inMask s before =
        stepIf (f.useHw && inMask) (setHw s.hw) (parseFECDebug debugDoc before) >>= tests := by
  have cbal := viewNothing (@effectVBal needToSwap) ((f.useVBal || f.useAll) && inMask) s.config s.crateCBal
  have zdisc := viewNothing (@effectZdisc needToSwap) (usesZdisc f && inMask) s.config s.zdisc
  have noise := effectIf (usesNoise f && inMask) (effectView (@effectNoise needToSwap) s.config s.noise)
  have ttot := viewNothing (@effectTDisc needToSwap) ((f.useTDisc || f.useAll) && inMask) s.config s.ttot
  have cmos := viewNothing (@effectTCmos needToSwap) ((f.useTCmos || f.useAll) && inMask) s.config s.cmos
  have all := effectThen cbal (effectThen (effectThen zdisc noise) (effectThen ttot cmos))
  simp only [List.nil_append, List.append_nil] at all
  refine ⟨_, ⟨fun mb => (all.succeeds mb).trans ?_, all.alike, all.ids⟩, fun debugDoc before => ?_⟩
  · constructor
    · rintro ⟨cbal, ⟨zdisc, noise⟩, ttot, cmos⟩
      exact ⟨cbal,zdisc,noise,ttot,cmos⟩
    · rintro ⟨cbal, zdisc, noise, ttot, cmos⟩
      exact ⟨cbal,⟨zdisc,noise⟩,ttot,cmos⟩
  · simp only [fillSlot, setVThrThen]

theorem fillNoHw (noHw : (f.useHw && inMask) = false) :
    ∃ tests, Effect needToSwap (Readable f inMask s) (noiseWritesOf f inMask s) tests ∧
      ∀ before, fillSlot needToSwap f debugDoc inMask s before = tests (parseFECDebug debugDoc before) := by
  obtain ⟨tests, effect, same⟩ := fillTests needToSwap f inMask s
  refine ⟨tests, effect, fun before => ?_⟩
  rw [same, noHw]
  rfl

theorem fillReadable (noHw : (f.useHw && inMask) = false) (before : MB) :
    (∃ filled, fillSlot needToSwap f debugDoc inMask s before = .ok filled) ↔ Readable f inMask s := by
  obtain ⟨tests, effect, same⟩ := @fillNoHw needToSwap f debugDoc inMask s noHw
  rw [same]
  exact effect.succeeds _

theorem fillIds (noHw : (f.useHw && inMask) = false) {before filled : MB}
    (done : fillSlot needToSwap f debugDoc inMask s before = .ok filled) (word : Fin 5) (k : Fin 2) :
    idByte needToSwap filled word k =
      written (noiseWritesOf f inMask s) (idPlace word k) (idByte needToSwap before word k) := by
  obtain ⟨tests, effect, same⟩ := @fillNoHw needToSwap f debugDoc inMask s noHw
  rw [same] at done
  exact effect.ids done word k

theorem fillWritten (noHw : (f.useHw && inMask) = false) (writes : WritesIds f inMask s) {a x : MB}
    (done : fillSlot needToSwap f debugDoc inMask s a = .ok x) (b : MB) :
    fillSlot needToSwap f debugDoc inMask s b = .ok x := by
  obtain ⟨tests, effect, same⟩ := @fillNoHw needToSwap f debugDoc inMask s noHw
  rw [same] at done ⊢
  obtain ⟨y, done'⟩ := (effect.succeeds (parseFECDebug debugDoc b)).mpr ((effect.succeeds _).mp ⟨x,done⟩)
  have near : Alike (parseFECDebug debugDoc a) (parseFECDebug debugDoc b) := rfl
  rw [done', alikeSame (effect.alike near done done') (idsSame needToSwap fun word k => ?_)]
  rw [effect.ids done, effect.ids done']
  exact writtenSome (writes word k) _ _

end

section
variable {needToSwap : Bool} {f : Flags} {debugDoc : Node} {r : Run}

theorem sentBlock (inv : MB → Prop) {slots : List Nat}
    (keeps : ∀ i ∈ slots, ∀ before filled, inv before →
      fillSlot needToSwap f debugDoc (r.inMask i) (r.slot i) before = .ok filled → inv (toWire needToSwap f filled))
    {mb : MB} (start : inv mb) {b : Sent} (sent : b ∈ initLoop needToSwap f debugDoc r slots mb) :
    b.slot ∈ slots ∧ b.slotWord = swapLong needToSwap (BitVec.ofNat 32 b.slot) ∧
      ∃ before filled, inv before ∧
        fillSlot needToSwap f debugDoc (r.inMask b.slot) (r.slot b.slot) before = .ok filled ∧
        b.mb = toWire needToSwap f filled := by
  induction slots generalizing mb with
  | nil => cases sent
  | cons i later ih =>
    rw [initLoop] at sent
    cases h : fillSlot needToSwap f debugDoc (r.inMask i) (r.slot i) mb with
    | error e => simp [h] at sent
    | ok filled =>
      simp only [h] at sent
      split at sent
      · rcases List.mem_cons.mp sent with rfl | sent
        · exact ⟨List.mem_cons_self, rfl, mb, filled, start, h, rfl⟩
        · obtain ⟨mem, rest⟩ := ih (fun i mem => keeps i (List.mem_cons_of_mem _ mem))
            (keeps i List.mem_cons_self mb filled start h) sent
          exact ⟨List.mem_cons_of_mem _ mem, rest⟩
      · cases sent

theorem firstBlock {i : Nat} {later : List Nat} (fresh : i ∉ later) {mb : MB} {b : Sent}
    (sent : b ∈ initLoop needToSwap f debugDoc r (i::later) mb) (slot : b.slot = i) :
    b.slotWord = swapLong needToSwap (BitVec.ofNat 32 i) ∧
      ∃ filled, fillSlot needToSwap f debugDoc (r.inMask i) (r.slot i) mb = .ok filled ∧
        b.mb = toWire needToSwap f filled := by
  rw [initLoop] at sent
  cases h : fillSlot needToSwap f debugDoc (r.inMask i) (r.slot i) mb with
  | error e => simp [h] at sent
  | ok filled =>
    simp only [h] at sent
    split at sent
    · rcases List.mem_cons.mp sent with rfl | sent
      · exact ⟨rfl, filled, rfl, rfl⟩
      · have other := (sentBlock (fun _ => True) (fun _ _ _ _ _ _ => trivial) trivial sent).1
        exact absurd (slot ▸ other) fresh
    · cases sent

/- Where nothing fails, every slot gets a block. -/
theorem everySlotSent {slots : List Nat} (up : ∀ i ∈ slots, r.linkUp i = true)
    (fills : ∀ i ∈ slots, ∀ before, ∃ filled,
      fillSlot needToSwap f debugDoc (r.inMask i) (r.slot i) before = .ok filled)
    (mb : MB) {i : Nat} (mem : i ∈ slots) : ∃ b ∈ initLoop needToSwap f debugDoc r slots mb, b.slot = i := by
  induction slots generalizing mb with
  | nil => cases mem
  | cons j later ih =>
    obtain ⟨filled, done⟩ := fills j List.mem_cons_self mb
    rw [initLoop, done]
    simp only [up j List.mem_cons_self, if_true]
    rcases List.mem_cons.mp mem with rfl | mem
    · exact ⟨_, List.mem_cons_self, rfl⟩
    · obtain ⟨b, sent, here⟩ := ih (fun i m => up i (List.mem_cons_of_mem _ m))
        (fun i m => fills i (List.mem_cons_of_mem _ m)) (toWire needToSwap f filled) mem
      exact ⟨b, List.mem_cons_of_mem _ sent, here⟩

end

structure At (r : Run) (i : Nat) (inMask : Bool) (s : SlotInputs) : Prop where
  inMask : r.inMask i = inMask
  slot : r.slot i = s

section
variable (needToSwap : Bool) (f : Flags) (debugDoc : Node) (i : Nat) (inMask : Bool) (s : SlotInputs)

/- The block is the same whatever the other slots are. -/
def NonInterfering : Prop := ∀ r r' : Run, At r i inMask s → At r' i inMask s →
  ∀ b ∈ crateInit needToSwap f debugDoc r, ∀ b' ∈ crateInit needToSwap f debugDoc r',
    b.slot = i → b'.slot = i → b.slotWord = b'.slotWord ∧ b.mb = b'.mb

def SwappedOnce : Prop := ∀ r : Run, At r i inMask s → ∀ b ∈ crateInit needToSwap f debugDoc r, b.slot = i →
  b.slotWord = swapLong needToSwap (BitVec.ofNat 32 i) ∧
  ∃ host, fillSlot needToSwap f debugDoc inMask s zeroBlock = .ok host ∧
    b.mb.mbID = swapShort needToSwap host.mbID ∧
    (∀ j, b.mb.dbID j = swapShort needToSwap (host.dbID j)) ∧
    (∀ j, b.mb.sCmos j = swapShort needToSwap (host.sCmos j)) ∧
    b.mb.disableMask = swapLong needToSwap host.disableMask

def Isolated : Prop :=
  NonInterfering needToSwap f debugDoc i inMask s ∧ SwappedOnce needToSwap f debugDoc i inMask s

end

def idsOf (id : BitVec 16) : MB := { zeroBlock with mbID := id, dbID := fun _ => id }

theorem wireIds (needToSwap : Bool) (f : Flags) (mb : MB) (word : Fin 5) :
    idWord (toWire needToSwap f mb) word = swapShort needToSwap (idWord mb word) := by
  cases word using Fin.cases <;> rfl

theorem wireSame {needToSwap : Bool} {f : Flags} {mb : MB} {id : BitVec 16}
    (stays : swapShort needToSwap id = id) (held : SameIds mb (idsOf id)) :
    SameIds (toWire needToSwap f mb) (idsOf id) := by
  refine wordsSame fun word => ?_
  rw [wireIds, sameWords held]
  cases word using Fin.cases <;> exact stays

theorem swapZero (needToSwap : Bool) : swapShort needToSwap 0#16 = 0#16 := by
  cases needToSwap <;> rfl

theorem swapOnes (needToSwap : Bool) : swapShort needToSwap 0x0101#16 = 0x0101#16 := by
  cases needToSwap <;> rfl

theorem swapShortTwice (needToSwap : Bool) (x : BitVec 16) :
    swapShort needToSwap (swapShort needToSwap x) = x := by
  cases needToSwap with
  | false => rfl
  | true =>
    refine BitVec.eq_of_getLsbD_eq fun j inside => ?_
    simp only [swapShort, if_true, BitVec.getLsbD_and, BitVec.getLsbD_or, BitVec.getLsbD_shiftLeft,
      BitVec.getLsbD_ushiftRight]
    interval_cases j <;> simp

theorem wireApart {needToSwap : Bool} {f : Flags} {a b : MB}
    (same : toWire needToSwap f a = toWire needToSwap f b) : SameIds a b := by
  refine wordsSame fun word => ?_
  have swapped := congrArg (fun mb => swapShort needToSwap (idWord mb word)) same
  simpa only [wireIds, swapShortTwice] using swapped

theorem blockOwn {needToSwap : Bool} {f : Flags} {debugDoc : Node} {i : Nat} {inMask : Bool}
    {s : SlotInputs} (own : IdsOwn f i inMask s) {r : Run} (here : At r i inMask s) {b : Sent}
    (sent : b ∈ crateInit needToSwap f debugDoc r) (slot : b.slot = i) :
    b.slotWord = swapLong needToSwap (BitVec.ofNat 32 i) ∧
      ∃ host, fillSlot needToSwap f debugDoc inMask s zeroBlock = .ok host ∧
        b.mb = toWire needToSwap f host := by
  subst slot
  obtain ⟨rfl, rfl⟩ := here
  unfold crateInit at sent
  split at sent
  · obtain ⟨-, word, before, filled, -, done, block⟩ := sentBlock (fun _ => True)
      (fun _ _ _ _ _ _ => trivial) trivial sent
    cases wanted : f.useHw && r.inMask b.slot with
    | true => exact ⟨word, filled, (fillHw wanted _ _).trans done, block⟩
    | false =>
      rcases own with first | hw | writes | nobody | unread
      · have slots : List.range 16 = 0::List.range' 1 15 := rfl
        rw [slots] at sent
        rw [first]
        exact firstBlock (by decide) sent first
      · rw [wanted] at hw
        cases hw
      · exact ⟨word, filled, fillWritten wanted writes done _, block⟩
      · -- The ids are zero in every block.
        obtain ⟨noHw, noNoise⟩ := Bool.or_eq_false_iff.mp nobody
        obtain ⟨-, -, before, filled, zero, done, block⟩ := sentBlock (SameIds · (idsOf 0#16))
          (fun j _ before filled zero done => wireSame (swapZero needToSwap) (idsSame needToSwap fun word k => by
            rw [fillIds (by rw [noHw]; rfl) done, noiseWritesOf, noNoise]
            exact idsKept zero word k)) ⟨rfl,rfl⟩ sent
        exact ⟨word, filled, (fillSame zero).symm.trans done, block⟩
      · exact absurd ((fillReadable wanted _).mp ⟨filled,done⟩) unread
  · cases sent

theorem isolatedOwn {needToSwap : Bool} {f : Flags} {debugDoc : Node} {i : Nat} {inMask : Bool}
    {s : SlotInputs} (own : IdsOwn f i inMask s) : Isolated needToSwap f debugDoc i inMask s := by
  constructor
  · intro r r' here here' b sent b' sent' slot slot'
    obtain ⟨word, host, fill, block⟩ := blockOwn own here sent slot
    obtain ⟨word', host', fill', block'⟩ := blockOwn own here' sent' slot'
    obtain rfl : host = host' := Except.ok.inj (fill.symm.trans fill')
    exact ⟨word.trans word'.symm, block.trans block'.symm⟩
  · intro r here b sent slot
    obtain ⟨word, host, fill, block⟩ := blockOwn own here sent slot
    rw [block]
    exact ⟨word, host, fill, rfl, fun _ => rfl, fun _ => rfl, rfl⟩

def boardDoc : Json := .object [("_id",.string "fec"),("board_id",.string "0101"),
  ("id",.object [("db0",.string "0101"),("db1",.string "0101"),("db2",.string "0101"),("db3",.string "0101")])]

def idsDoc : Json := .object [("channels",arrayOf fun j : Fin 32 =>
  .object [("id",ofInt ((j.val % 10 : Nat)-74)),("noiseless",ofNat 1)])]

def answered (docs : List Json) : Option Node :=
  some (some (.object [("total_rows",ofNat docs.length),
    ("rows",.array (docs.map fun doc => .object [("value",doc)]))]))

def boardInputs : SlotInputs where
  config := ⟨1#16,fun _ => 0#16⟩
  hw := answered [boardDoc]
  crateCBal := answered []
  zdisc := answered []
  noise := answered [idsDoc]
  ttot := answered []
  cmos := answered []

theorem idsWrites : noiseWrites (some idsDoc) = (List.range 32).map fun j => (((j % 10 : Nat) : Int),1#8) := by
  refine List.map_congr_left fun j mem => ?_
  have channel : findElement (findMember (some idsDoc) "channels") j = some (.object
      [("id",ofInt ((j % 10 : Nat)-74)),("noiseless",ofNat 1)]) :=
    findElementArrayOf (n := 32) _ ⟨j,List.mem_range.mp mem⟩
  have id : truncate (getNumber (some (ofInt ((j % 10 : Nat)-74)))) = (j % 10 : Nat)-74 := truncateInt _
  have one : FECSettings.byteOf (some (ofNat 1)) = 1#8 := by
    rw [FECSettings.byteOf, intOf, getNumberNat, toUInt, truncateNat]
    rfl
  rw [noiseWrite, channel]
  change (vThrStart + truncate (getNumber (some (ofInt ((j % 10 : Nat)-74)))),
    FECSettings.byteOf (some (ofNat 1))) = _
  rw [id, one, vThrStart]
  exact Prod.ext (by omega) rfl

theorem boardWrites (f : Flags) : noiseWritesOf f true boardInputs =
    if usesNoise f then (List.range 32).map fun j => (((j % 10 : Nat) : Int),1#8) else [] := by
  rw [← idsWrites, noiseWritesOf, Bool.and_true]
  rfl

theorem boardReadable (f : Flags) : Readable f true boardInputs := by
  refine ⟨fun _ => .inr rfl, fun _ => .inr rfl, fun _ => ⟨.inr rfl,fun doc mem write written => ?_⟩,
    fun _ => .inr rfl, fun _ => .inr rfl⟩
  obtain rfl : some idsDoc = doc := Option.some.inj mem
  rw [idsWrites] at written
  obtain ⟨j, -, rfl⟩ := List.mem_map.mp written
  exact ⟨by omega,by omega⟩

theorem hwBoard (mb : MB) :
    ∃ filled, setHw boardInputs.hw mb = .ok filled ∧ SameIds filled (idsOf 0x0101#16) := by
  have boardId : BitVec.ofNat 16 (Lib.CString.strtoul16 "0101".toList) = 0x0101#16 := by decide +kernel
  refine ⟨_, rfl, boardId, funext fun j => ?_⟩
  fin_cases j <;> exact boardId

theorem onesByte (needToSwap : Bool) (word : Fin 5) (k : Fin 2) :
    idByte needToSwap (idsOf 0x0101#16) word k = 1#8 := by
  revert word k
  cases needToSwap <;> decide

theorem zerosByte (needToSwap : Bool) (word : Fin 5) (k : Fin 2) :
    idByte needToSwap (idsOf 0#16) word k = 0#8 := by
  revert word k
  cases needToSwap <;> decide

theorem writtenValue {writes : List (Int × BitVec 8)} {value : BitVec 8}
    (same : ∀ write ∈ writes, write.2 = value) (p : Int) : written writes p value = value := by
  induction writes with
  | nil => rfl
  | cons write later ih =>
    rw [List.forall_mem_cons] at same
    rw [written, List.foldl_cons, same.1, ite_self]
    exact ih same.2

theorem boardBytes (f : Flags) (p : Int) : written (noiseWritesOf f true boardInputs) p 1#8 = 1#8 := by
  refine writtenValue (fun write mem => ?_) p
  rw [boardWrites] at mem
  split at mem
  · obtain ⟨j, -, rfl⟩ := List.mem_map.mp mem
    rfl
  · cases mem

theorem fillBoard (needToSwap : Bool) {f : Flags} (ids : (f.useHw || usesNoise f) = true) (debugDoc : Node)
    (before : MB) : ∃ filled, fillSlot needToSwap f debugDoc true boardInputs before = .ok filled ∧
      SameIds filled (idsOf 0x0101#16) := by
  obtain ⟨tests, effect, same⟩ := fillTests needToSwap f true boardInputs
  rw [same, Bool.and_true]
  cases hw : f.useHw with
  | true =>
    obtain ⟨held, done, board⟩ := hwBoard (parseFECDebug debugDoc before)
    obtain ⟨filled, done'⟩ := (effect.succeeds held).mpr (boardReadable f)
    refine ⟨filled, bindOk.mpr ⟨held,done,done'⟩, idsSame needToSwap fun word k => ?_⟩
    rw [effect.ids done', idsKept board, onesByte]
    exact boardBytes f _
  | false =>
    obtain ⟨filled, done'⟩ := (effect.succeeds (parseFECDebug debugDoc before)).mpr (boardReadable f)
    refine ⟨filled, done', idsSame needToSwap fun word k => ?_⟩
    have named : ∃ write ∈ noiseWritesOf f true boardInputs, write.1 = idPlace word k := by
      rw [hw, Bool.false_or] at ids
      rw [boardWrites, if_pos ids]
      refine ⟨_, List.mem_map.mpr ⟨2*word+k,List.mem_range.mpr (by omega),rfl⟩, ?_⟩
      simp only [idPlace]
      omega
    rw [effect.ids done', onesByte, writtenSome named _ 1#8]
    exact boardBytes f _

def tellRun (first : Bool) (i : Nat) (inMask : Bool) (s : SlotInputs) : Run where
  slotMask := (if first then 1#32 else 0#32) ||| if inMask then BitVec.twoPow 32 i else 0#32
  slot k := if k = i then s else boardInputs
  linkUp _ := true

theorem tellMask {first : Bool} {i : Nat} (inside : i < 16) (inMask : Bool) (s : SlotInputs) (k : Nat) :
    (tellRun first i inMask s).inMask k = (first && decide (k = 0) || inMask && decide (k = i)) := by
  have bit : (BitVec.twoPow 32 i).getLsbD k = decide (k = i) := by
    rw [BitVec.getLsbD_twoPow, decide_eq_true (by omega : i < 32), Bool.true_and]
    exact decide_eq_decide.mpr eq_comm
  rw [Run.inMask, tellRun, BitVec.getLsbD_or]
  cases first <;> cases inMask <;> simp [bit, BitVec.getLsbD_one]

section
variable {needToSwap : Bool} {f : Flags} {debugDoc : Node} {i : Nat} {inMask : Bool} {s : SlotInputs}

theorem carried {r : Run} {slots : List Nat} (mem : i ∈ slots)
    (outside : ∀ j ∈ slots, j ≠ i → r.inMask j = false) (up : ∀ j, r.linkUp j = true)
    (fills : ∀ before, ∃ filled, fillSlot needToSwap f debugDoc (r.inMask i) (r.slot i) before = .ok filled)
    {id : BitVec 16} (stays : swapShort needToSwap id = id) {mb : MB} (held : SameIds mb (idsOf id)) :
    ∃ b ∈ initLoop needToSwap f debugDoc r slots mb, b.slot = i ∧ ∃ before filled,
      SameIds before (idsOf id) ∧ fillSlot needToSwap f debugDoc (r.inMask i) (r.slot i) before = .ok filled ∧
        b.mb = toWire needToSwap f filled := by
  induction slots generalizing mb with
  | nil => cases mem
  | cons j later ih =>
    rw [initLoop]
    by_cases here : j = i
    · subst here
      obtain ⟨filled, done⟩ := fills mb
      simp only [done, up, if_true]
      exact ⟨_, List.mem_cons_self, rfl, mb, filled, held, done, rfl⟩
    · rw [outside j List.mem_cons_self here, fillOutside]
      simp only [up, if_true]
      obtain ⟨b, sent, rest⟩ := ih ((List.mem_cons.mp mem).resolve_left (Ne.symm here))
        (fun j mem => outside j (List.mem_cons_of_mem _ mem))
        (@wireSame needToSwap f (parseFECDebug debugDoc mb) id stays held)
      exact ⟨b, List.mem_cons_of_mem _ sent, rest⟩

theorem tellFetched (first : Bool) (inside : i < 16) (later : i ≠ 0) (noHw : (f.useHw && inMask) = false) :
    hwFetched f (tellRun first i inMask s) = true := by
  have one : truncate (getNumber (some (ofNat 1))) ≠ 0 := by
    rw [getNumberNat, truncateNat]
    decide
  cases hw : f.useHw with
  | false => rw [hwFetched, hw, Bool.not_false, Bool.true_or]
  | true =>
    obtain rfl : inMask = false := by rwa [hw, Bool.true_and] at noHw
    rw [hwFetched, Bool.or_eq_true, List.all_eq_true]
    refine .inr fun k _ => ?_
    rw [tellMask inside, Bool.false_and, Bool.or_false]
    by_cases start : k = 0
    · subst start
      have docs : (tellRun first i false s).slot 0 = boardInputs := if_neg (Ne.symm later)
      rw [docs, Bool.or_eq_true]
      exact .inr (decide_eq_true one)
    · rw [decide_eq_false start, Bool.and_false]
      rfl

theorem tellSent (first : Bool) (inside : i < 16) (later : i ≠ 0) (noHw : (f.useHw && inMask) = false)
    (ids : (f.useHw || usesNoise f) = true) (readable : Readable f inMask s) :
    ∃ b ∈ crateInit needToSwap f debugDoc (tellRun first i inMask s), b.slot = i ∧ ∃ before filled,
      SameIds before (idsOf (if first then 0x0101#16 else 0#16)) ∧
        fillSlot needToSwap f debugDoc inMask s before = .ok filled ∧ b.mb = toWire needToSwap f filled := by
  have slots : List.range 16 = 0::List.range' 1 15 := rfl
  have rest : i ∈ List.range' 1 15 := by
    rw [List.mem_range'_1]
    omega
  have own : (tellRun first i inMask s).inMask i = inMask := by
    rw [tellMask inside, decide_eq_false later, Bool.and_false, Bool.false_or, decide_eq_true rfl, Bool.and_true]
  have docs : (tellRun first i inMask s).slot i = s := if_pos rfl
  have outside : ∀ j ∈ List.range' 1 15, j ≠ i → (tellRun first i inMask s).inMask j = false := by
    intro j mem other
    have start : j ≠ 0 := by
      rw [List.mem_range'_1] at mem
      omega
    rw [tellMask inside, decide_eq_false start, decide_eq_false other, Bool.and_false, Bool.and_false]
    rfl
  have fills := fun before => (@fillReadable needToSwap f debugDoc inMask s noHw before).mpr readable
  have begun : ∃ filled, fillSlot needToSwap f debugDoc first boardInputs zeroBlock = .ok filled ∧
      SameIds filled (idsOf (if first then 0x0101#16 else 0#16)) := by
    cases first with
    | false => exact ⟨_, fillOutside f debugDoc boardInputs zeroBlock, rfl, rfl⟩
    | true => exact fillBoard needToSwap ids debugDoc zeroBlock
  have stays : swapShort needToSwap (if first then 0x0101#16 else 0#16) = if first then 0x0101#16 else 0#16 := by
    cases first with
    | false => exact swapZero needToSwap
    | true => exact swapOnes needToSwap
  obtain ⟨filled, done, board⟩ := begun
  have zero : (tellRun first i inMask s).inMask 0 = first := by
    rw [tellMask inside, decide_eq_false (Ne.symm later)]
    simp
  have zeroSlot : (tellRun first i inMask s).slot 0 = boardInputs := if_neg (Ne.symm later)
  have found := @carried needToSwap f debugDoc i (tellRun first i inMask s) _ rest outside (fun _ => rfl)
    (by rwa [own, docs]) _ stays _ (@wireSame needToSwap f filled _ stays board)
  rw [own, docs] at found
  obtain ⟨b, sent, slot⟩ := found
  refine ⟨b, ?_, slot⟩
  rw [crateInit, if_pos (tellFetched first inside later noHw), slots, initLoop, zero, zeroSlot, done]
  exact List.mem_cons_of_mem _ sent

theorem leaks (inside : i < 16) (later : i ≠ 0) (noHw : (f.useHw && inMask) = false)
    (ids : (f.useHw || usesNoise f) = true) (readable : Readable f inMask s) (kept : ¬WritesIds f inMask s) :
    ¬NonInterfering needToSwap f debugDoc i inMask s := by
  intro same
  unfold WritesIds at kept
  push Not at kept
  obtain ⟨word, k, unwritten⟩ := kept
  have here (first : Bool) : At (tellRun first i inMask s) i inMask s := by
    refine ⟨?_, if_pos rfl⟩
    rw [tellMask inside, decide_eq_false later, decide_eq_true rfl]
    simp
  obtain ⟨b, sent, slot, before, filled, zeros, done, block⟩ :=
    @tellSent needToSwap f debugDoc i inMask s false inside later noHw ids readable
  obtain ⟨b', sent', slot', before', filled', ones, done', block'⟩ :=
    @tellSent needToSwap f debugDoc i inMask s true inside later noHw ids readable
  have blocks := (same _ _ (here false) (here true) b sent b' sent' slot slot').2
  rw [block, block'] at blocks
  have byte := @idsKept needToSwap _ _ (wireApart blocks) word k
  rw [fillIds noHw done, fillIds noHw done', writtenNone unwritten, writtenNone unwritten,
    idsKept zeros, idsKept ones, if_neg Bool.false_ne_true, if_pos rfl, zerosByte, onesByte] at byte
  revert byte
  decide

end

theorem isolatedSlots (needToSwap : Bool) (f : Flags) (debugDoc : Node) (i : Fin 16) (inMask : Bool)
    (s : SlotInputs) : Isolated needToSwap f debugDoc i inMask s ↔ IdsOwn f i inMask s := by
  refine ⟨fun isolated => ?_, isolatedOwn⟩
  by_contra others
  simp only [IdsOwn, not_or, not_not, Bool.not_eq_true, Bool.not_eq_false] at others
  obtain ⟨later, noHw, kept, ids, readable⟩ := others
  exact leaks i.isLt later noHw ids readable kept isolated.1

def hwOnly : Flags where
  useVBal := false
  useVThr := false
  useTDisc := false
  useTCmos := false
  useAll := false
  useNoise := false
  useHw := true
  enableTriggers := false
  tr100Delay := 0#32
  tr20Delay := 0#32
  tr20Width := 0#32

theorem idsOfSlotZero : ¬Isolated true hwOnly (some (.object [])) 1 false boardInputs := fun isolated =>
  leaks (by decide) (by decide) rfl rfl
    ⟨fun _ => .inr rfl,fun _ => .inr rfl,fun wanted => absurd wanted (by decide),fun _ => .inr rfl,fun _ => .inr rfl⟩
    (fun writes => by simpa [noiseWritesOf] using writes 0 0) isolated.1

end PennDaq.SlotIsolation
