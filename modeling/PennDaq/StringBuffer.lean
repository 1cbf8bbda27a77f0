import PennDaq.Utf8

/-! The string buffer of the JSON library, which doubles when it is too short. Behind the
room there is one more byte for the closing zero. There is no result where a write leaves
the room or an assertion fails. -/
namespace PennDaq.StringBuffer
open PennDaq.Utf8

structure SB where
  /- What stands between `start` and `cur`. -/
  bytes : Text
  /- The room between `start` and `end`. -/
  alloc : Nat
  positive : 0 < alloc
  inside : bytes.length ≤ alloc

def growLoop (wanted : Nat) : Nat → Nat → Nat
  | 0, alloc => 2*alloc
  | passes+1, alloc => if 2*alloc < wanted then growLoop wanted passes (2*alloc) else 2*alloc

theorem growLoopGrows (wanted passes alloc : Nat) : alloc ≤ growLoop wanted passes alloc := by
  induction passes generalizing alloc with
  | zero =>
    unfold growLoop
    omega
  | succ passes ih =>
    unfold growLoop
    split
    · exact Nat.le_trans (by omega) (ih (2*alloc))
    · omega

theorem growLoopEnough {wanted passes alloc : Nat} (positive : 0 < alloc) (enough : wanted ≤ alloc+passes) :
    wanted ≤ growLoop wanted passes alloc := by
  induction passes generalizing alloc with
  | zero =>
    unfold growLoop
    omega
  | succ passes ih =>
    unfold growLoop
    split
    · exact ih (by omega) (by omega)
    · omega

/- A length as an `int`. -/
def intOf (length : Nat) : Int := (BitVec.ofNat 32 length).toInt

theorem intOfShort {length : Nat} (short : length < 2^31) : intOf length = length := by
  rw [intOf, BitVec.toInt_ofNat']
  exact Int.bmod_eq_of_le (by omega) (by omega)

namespace SB

theorem sbInitPositive : 0 < 16 := by decide

theorem sbInitInside : ([] : Text).length ≤ 16 := by decide

def sbInit : SB := ⟨[],16,sbInitPositive,sbInitInside⟩

def sbGrow (sb : SB) (need : Nat) : SB :=
  let alloc := growLoop (sb.bytes.length+need) (sb.bytes.length+need) sb.alloc
  ⟨sb.bytes,alloc,Nat.lt_of_lt_of_le sb.positive (growLoopGrows _ _ _),Nat.le_trans sb.inside (growLoopGrows _ _ _)⟩

def sbNeed (sb : SB) (need : Nat) : SB := if sb.alloc - sb.bytes.length < need then sb.sbGrow need else sb

def write (more : Text) (sb : SB) : Option SB :=
  if room : (sb.bytes ++ more).length ≤ sb.alloc then some ⟨sb.bytes ++ more,sb.alloc,sb.positive,room⟩ else none

/- A count below zero makes no room, and `memcpy` takes it for a huge one. -/
def sbPut (bytes : Text) (count : Int) (sb : SB) : Option SB :=
  if count < 0 then none else (sb.sbNeed count.toNat).write (bytes.take count.toNat)

def sbPutc (c : UInt8) (sb : SB) : Option SB :=
  (if sb.alloc ≤ sb.bytes.length then sb.sbGrow 1 else sb).write [c]

def sbPuts (str : Text) (sb : SB) : Option SB := sb.sbPut str (intOf str.length)

def sbFinish (sb : SB) : Option CText := if apart : 0 ∉ sb.bytes then some ⟨sb.bytes,apart⟩ else none

@[simp] theorem sbGrowBytes (sb : SB) (need : Nat) : (sb.sbGrow need).bytes = sb.bytes := rfl

theorem sbGrowRoom (sb : SB) (need : Nat) : sb.bytes.length+need ≤ (sb.sbGrow need).alloc :=
  growLoopEnough sb.positive (by omega)

@[simp] theorem sbNeedBytes (sb : SB) (need : Nat) : (sb.sbNeed need).bytes = sb.bytes := by
  unfold sbNeed
  split <;> rfl

theorem sbNeedRoom (sb : SB) (need : Nat) : sb.bytes.length+need ≤ (sb.sbNeed need).alloc := by
  unfold sbNeed
  split
  case isTrue => exact sbGrowRoom sb need
  case isFalse room =>
    have := sb.inside
    omega

theorem writeInside {sb : SB} {more : Text} (room : sb.bytes.length+more.length ≤ sb.alloc) :
    ∃ sb', sb.write more = some sb' ∧ sb'.bytes = sb.bytes ++ more ∧ sb'.alloc = sb.alloc := by
  rw [← List.length_append] at room
  exact ⟨_,dif_pos room,rfl,rfl⟩

theorem writeBytes {sb sb' : SB} {more : Text} (written : sb.write more = some sb') :
    sb'.bytes = sb.bytes ++ more := by
  unfold write at written
  split at written
  case isTrue =>
    cases written
    rfl
  case isFalse => cases written

theorem sbFinishBytes {sb : SB} {str : CText} (finished : sb.sbFinish = some str) : str.bytes = sb.bytes := by
  unfold sbFinish at finished
  split at finished
  case isTrue =>
    cases finished
    rfl
  case isFalse => cases finished

theorem sbFinishSome {sb : SB} (apart : 0 ∉ sb.bytes) : sb.sbFinish = some ⟨sb.bytes,apart⟩ := dif_pos apart

end SB

abbrev Emit := SB → Option SB

def Emits (emit : Emit) (text : Text) : Prop := ∀ sb, ∃ sb', emit sb = some sb' ∧ sb'.bytes = sb.bytes ++ text

def also (first second : Emit) : Emit := fun out => (first out).bind second

def nothing : Emit := some

theorem emitsNothing : Emits nothing [] := fun sb => ⟨sb,rfl,(List.append_nil _).symm⟩

theorem emitsAlso {first second : Emit} {text text' : Text} (one : Emits first text) (two : Emits second text') :
    Emits (also first second) (text ++ text') := by
  intro sb
  obtain ⟨sb₁, same₁, bytes₁⟩ := one sb
  obtain ⟨sb₂, same₂, bytes₂⟩ := two sb₁
  refine ⟨sb₂,?_,by rw [bytes₂, bytes₁, List.append_assoc]⟩
  rw [also, same₁, Option.bind_some, same₂]

def counted (text : Text) : Text := text.take (intOf text.length).toNat

theorem emitsCounted {text : Text} (countable : 0 ≤ intOf text.length) : Emits (SB.sbPuts text) (counted text) := by
  intro sb
  have short : (counted text).length ≤ (intOf text.length).toNat := List.length_take_le _ _
  have room := sb.sbNeedRoom (intOf text.length).toNat
  obtain ⟨sb', written, bytes, _⟩ := @SB.writeInside (sb.sbNeed (intOf text.length).toNat) (counted text)
    (by rw [SB.sbNeedBytes]; omega)
  exact ⟨sb',(if_neg (Int.not_lt.mpr countable)).trans written,by rw [bytes, SB.sbNeedBytes]⟩

theorem emitsPuts (text : Text) (short : text.length < 2^31) : Emits (SB.sbPuts text) text := by
  have whole : counted text = text := by rw [counted, intOfShort short, Int.toNat_natCast, List.take_length]
  have emits := @emitsCounted text (by rw [intOfShort short]; omega)
  rwa [whole] at emits

theorem putsFails {text : Text} (negative : intOf text.length < 0) (sb : SB) : SB.sbPuts text sb = none := if_pos negative

theorem alsoFails {first second : Emit} (fails : ∀ sb, second sb = none) (sb : SB) : also first second sb = none := by
  unfold also
  cases first sb with
  | none => rfl
  | some sb => exact fails sb

theorem alsoFailsFirst {first second : Emit} (fails : ∀ sb, first sb = none) (sb : SB) : also first second sb = none := by
  rw [also, fails, Option.bind_none]

theorem emitsPutc (c : UInt8) : Emits (SB.sbPutc c) [c] := by
  intro sb
  unfold SB.sbPutc
  split
  case isTrue =>
    obtain ⟨sb', written, bytes, _⟩ := @SB.writeInside (sb.sbGrow 1) [c] (sb.sbGrowRoom 1)
    exact ⟨sb',written,bytes⟩
  case isFalse room =>
    obtain ⟨sb', written, bytes, _⟩ := @SB.writeInside sb [c] (by simp; omega)
    exact ⟨sb',written,bytes⟩

end PennDaq.StringBuffer
