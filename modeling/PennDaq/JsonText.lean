import PennDaq.JsonNumbers
import PennDaq.StringBuffer

/-! JSON values written as text, into a string buffer. -/
namespace PennDaq.JsonText
open PennDaq.Utf8 PennDaq.StringBuffer PennDaq.JsonNumbers

inductive JsonNode (ν : Type) where
  | null
  | bool (value : Bool)
  | string (value : CText)
  | number (value : ν)
  | array (elements : List (JsonNode ν))
  | object (members : List (CText × JsonNode ν))

/- The default of the switch: what is written for the character at `s`, and what is left
behind it. -/
def emitOther (c : UInt8) (s : Text) : Option (Text × Text) := do
  let len ← utf8ValidateCz s
  if len = 0 then none
  else if c < 0x1F then do
    let (unicode,len) ← utf8ReadChar s
    if unicode ≤ 0xFFFF then
      some ('\\'.toUInt8 :: 'u'.toUInt8::writeHex16 unicode.toUInt16,s.drop len)
    else do
      let (uc,lc) ← toSurrogatePair unicode
      some ('\\'.toUInt8 :: 'u'.toUInt8::(writeHex16 uc ++ '\\'.toUInt8 :: 'u'.toUInt8::writeHex16 lc),s.drop len)
  else
    some (s.take len,s.drop len)

def emitChar (c : UInt8) (s : Text) : Option (Text × Text) :=
  if c = '"'.toUInt8 then some (['\\'.toUInt8,'"'.toUInt8],s.drop 1)
  else if c = '\\'.toUInt8 then some (['\\'.toUInt8,'\\'.toUInt8],s.drop 1)
  else if c = 0x08 then some (['\\'.toUInt8,'b'.toUInt8],s.drop 1)
  else if c = 0x0C then some (['\\'.toUInt8,'f'.toUInt8],s.drop 1)
  else if c = 0x0A then some (['\\'.toUInt8,'n'.toUInt8],s.drop 1)
  else if c = 0x0D then some (['\\'.toUInt8,'r'.toUInt8],s.drop 1)
  else if c = 0x09 then some (['\\'.toUInt8,'t'.toUInt8],s.drop 1)
  else emitOther c s

def emitChars : Nat → Text → Emit
  | 0, _, _ => none
  | passes+1, s, out => do
    let c ← s[0]?
    if c = 0 then some out
    else do
      let (piece,s) ← emitChar c s
      let out ← out.write piece
      emitChars passes s (out.sbNeed 14)

def emitString (str : Text) : Emit := fun out => do
  let valid ← utf8Validate str
  if ¬valid then none
  else do
    let out ← (out.sbNeed 14).write ['"'.toUInt8]
    let out ← emitChars str.length str out
    out.write ['"'.toUInt8]

def null : Text := ['n'.toUInt8,'u'.toUInt8,'l'.toUInt8,'l'.toUInt8]

def false' : Text := ['f'.toUInt8,'a'.toUInt8,'l'.toUInt8,'s'.toUInt8,'e'.toUInt8]

def true' : Text := ['t'.toUInt8,'r'.toUInt8,'u'.toUInt8,'e'.toUInt8]

def shortEscape (c : UInt8) : Option UInt8 :=
  if c = '"'.toUInt8 then some '"'.toUInt8
  else if c = '\\'.toUInt8 then some '\\'.toUInt8
  else if c = 0x08 then some 'b'.toUInt8
  else if c = 0x0C then some 'f'.toUInt8
  else if c = 0x0A then some 'n'.toUInt8
  else if c = 0x0D then some 'r'.toUInt8
  else if c = 0x09 then some 't'.toUInt8
  else none

def escapedLow (c : UInt8) : Text :=
  match shortEscape c with
  | some letter => ['\\'.toUInt8,letter]
  | none => if c < 0x1F then '\\'.toUInt8 :: 'u'.toUInt8::writeHex16 c.toUInt16 else [c]

def escaped (c : Char) : Text :=
  if c.val.toNat ≤ 0x7F then escapedLow (UInt8.ofNat c.val.toNat) else String.utf8EncodeChar c

def quoted (chars : List Char) : Text := '"'.toUInt8::(chars.flatMap escaped ++ ['"'.toUInt8])

theorem emitCharIs (c : UInt8) (s : Text) : emitChar c s =
    match shortEscape c with
    | some letter => some (['\\'.toUInt8,letter],s.drop 1)
    | none => emitOther c s := by
  unfold emitChar shortEscape
  repeat' split
  all_goals first
    | rfl
    | simp_all

theorem lowByte {v : Nat} (low : v ≤ 0x7F) : (UInt8.ofNat v).toNat = v := by
  exact UInt8.toNat_ofNat_of_lt' (by change v < 256; omega)

theorem shortEscapeHigh {c : UInt8} (high : 0x80 ≤ c.toNat) : shortEscape c = none :=
  everyByte (P := fun c => 0x80 ≤ c.toNat → shortEscape c = none) (by decide +kernel) c high

theorem emitCharEscaped (c : Char) (later : Text) :
    ∃ first tail, String.utf8EncodeChar c = first::tail ∧
      emitChar first (String.utf8EncodeChar c ++ later) = some (escaped c,later) := by
  have checked := validateEncoded c later
  have some : (String.utf8EncodeChar c).length ≠ 0 := (encodedNotEmpty c).ne'
  unfold escaped
  rcases Nat.lt_or_ge 0x7F c.val.toNat with high | low
  · cases bytes : String.utf8EncodeChar c with
    | nil => exact absurd bytes String.utf8EncodeChar_ne_nil
    | cons first tail =>
      have above := encodeHigh high first (by simp [bytes])
      have plain : ¬first < 0x1F := by
        rw [UInt8.lt_iff_toNat_lt]
        exact fun less => absurd (Nat.lt_of_le_of_lt above less) (by decide)
      rw [bytes] at checked some
      refine ⟨first,tail,rfl,?_⟩
      rw [emitCharIs, shortEscapeHigh above, if_neg (by omega)]
      unfold emitOther
      rw [checked, Option.bind_eq_bind, Option.bind_some, if_neg some, if_neg plain, List.take_left, List.drop_left]
  · have read := utf8ReadCharEncoded c later
    rw [encodeLow low] at checked some read ⊢
    refine ⟨_,[],rfl,?_⟩
    rw [emitCharIs, if_pos low, escapedLow]
    cases shortEscape (UInt8.ofNat c.val.toNat) with
    | some letter => rfl
    | none =>
      dsimp only
      unfold emitOther
      rw [checked, Option.bind_eq_bind, Option.bind_some, if_neg some]
      have bmp : c.val ≤ 0xFFFF := UInt32.le_iff_toNat_le.mpr (Nat.le_trans low (by decide))
      have same : c.val.toUInt16 = (UInt8.ofNat c.val.toNat).toUInt16 := by
        apply UInt16.toNat_inj.mp
        rw [UInt32.toNat_toUInt16, UInt8.toNat_toUInt16, lowByte low]
        omega
      split
      case isTrue =>
        rw [read]
        dsimp only [Option.bind_eq_bind, Option.bind_some]
        rw [if_pos bmp, same]
        rfl
      case isFalse => rfl

theorem escapedShort (c : Char) : (escaped c).length ≤ 6 := by
  unfold escaped
  split
  case isTrue =>
    unfold escapedLow
    split
    · simp
    · split <;> simp [writeHex16]
  case isFalse =>
    have formed := formedEncode c
    generalize c.val.toNat = v at formed
    generalize String.utf8EncodeChar c = bytes at formed
    cases formed with
    | one | two | three | four => simp

theorem emitCharsSpec {passes : Nat} {chars : List Char} (apart : ∀ c ∈ chars, c.val.toNat ≠ 0)
    (enough : chars.length < passes) (sb : SB) (room : sb.bytes.length+13 ≤ sb.alloc) :
    ∃ sb', emitChars passes (encode chars ++ [0]) sb = some sb' ∧ sb'.bytes = sb.bytes ++ chars.flatMap escaped ∧
      sb'.bytes.length+13 ≤ sb'.alloc := by
  induction chars generalizing passes sb with
  | nil =>
    cases passes with
    | zero => omega
    | succ passes => exact ⟨sb,rfl,by simp,room⟩
  | cons c chars ih =>
    obtain ⟨other, others⟩ := List.forall_mem_cons.mp apart
    cases passes with
    | zero => omega
    | succ passes =>
      obtain ⟨first, tail, bytes, emitted⟩ := emitCharEscaped c (encode chars ++ [0])
      have positive : first ≠ 0 := fun zero => zeroNotEncoded other (by rw [bytes, zero]; simp)
      have short := escapedShort c
      obtain ⟨sb₁, written, stored, _⟩ := @SB.writeInside sb (escaped c) (by omega)
      have again : (sb₁.sbNeed 14).bytes.length+13 ≤ (sb₁.sbNeed 14).alloc := by
        have := sb₁.sbNeedRoom 14
        rw [SB.sbNeedBytes]
        omega
      obtain ⟨sb', done, all, left⟩ := ih others (by simp at enough; omega) (sb₁.sbNeed 14) again
      refine ⟨sb',?_,by rw [all, SB.sbNeedBytes, stored, List.flatMap_cons, List.append_assoc],left⟩
      rw [encodeCons, List.append_assoc]
      unfold emitChars
      have head : (String.utf8EncodeChar c ++ (encode chars ++ [0]))[0]? = some first := by simp [bytes]
      simp only [head, Option.bind_eq_bind, Option.bind_some]
      rw [if_neg positive, emitted, Option.bind_some, written, Option.bind_some, done]

/- A string in UTF-8 is written whatever the buffer holds, and never behind its room. -/
theorem emitStringQuoted {chars : List Char} (apart : ∀ c ∈ chars, c.val.toNat ≠ 0) :
    Emits (emitString (encode chars ++ [0])) (quoted chars) := by
  intro sb
  have valid : utf8Validate (encode chars ++ [0]) = some true := (utf8ValidateEncoded (encodeApart apart)).mpr ⟨chars,rfl⟩
  have enough : chars.length < (encode chars ++ [0]).length := by
    have := encodeLength chars
    simp
    omega
  have room := sb.sbNeedRoom 14
  have bytes := sb.sbNeedBytes 14
  obtain ⟨sb₁, opened, stored₁, alloc₁⟩ := @SB.writeInside (sb.sbNeed 14) ['"'.toUInt8] (by simp; omega)
  have left : sb₁.bytes.length+13 ≤ sb₁.alloc := by
    rw [stored₁, alloc₁, bytes, List.length_append, List.length_singleton]
    omega
  obtain ⟨sb₂, emitted, stored₂, left₂⟩ := emitCharsSpec apart enough sb₁ left
  obtain ⟨sb₃, closed, stored₃, _⟩ := @SB.writeInside sb₂ ['"'.toUInt8] (by simp; omega)
  refine ⟨sb₃,?_,by rw [stored₃, stored₂, stored₁, bytes, quoted]; simp⟩
  unfold emitString
  rw [valid]
  simp only [Option.bind_eq_bind, Option.bind_some, not_true_eq_false, if_false, opened, emitted, closed]

theorem emitStringInvalid {str : Text} (apart : 0 ∉ str) (invalid : ¬∃ chars, str = encode chars) (sb : SB) :
    emitString (str ++ [0]) sb = none := by
  have refused : utf8Validate (str ++ [0]) ≠ some true := fun valid => invalid ((utf8ValidateEncoded apart).mp valid)
  unfold emitString
  cases validated : utf8Validate (str ++ [0]) with
  | none => rfl
  | some valid =>
    cases valid with
    | true => exact absurd validated refused
    | false => rfl

section Numbers
variable {ν : Type} (doubles : Doubles ν)

def emitNumber (num : ν) : Emit :=
  let buf := doubles.print num
  SB.sbPuts (if numberIsValid buf then buf.bytes else null)

mutual

def emitValue : JsonNode ν → Emit
  | .null => SB.sbPuts null
  | .bool value => SB.sbPuts (if value then true' else false')
  | .string value => emitString value.memory
  | .number value => emitNumber doubles value
  | .array elements => also (SB.sbPutc '['.toUInt8) (also (emitElements elements) (SB.sbPutc ']'.toUInt8))
  | .object members => also (SB.sbPutc '{'.toUInt8) (also (emitMembers members) (SB.sbPutc '}'.toUInt8))

def emitElements : List (JsonNode ν) → Emit
  | [] => nothing
  | element::next => also (emitValue element)
    (also (if next.isEmpty then nothing else SB.sbPutc ','.toUInt8) (emitElements next))

def emitMembers : List (CText × JsonNode ν) → Emit
  | [] => nothing
  | (key,value)::next => also (emitString key.memory) (also (SB.sbPutc ':'.toUInt8) (also (emitValue value)
    (also (if next.isEmpty then nothing else SB.sbPutc ','.toUInt8) (emitMembers next))))

end

def indent (space : Text) : Nat → Emit
  | 0 => nothing
  | level+1 => also (SB.sbPuts space) (indent space level)

mutual

def emitValueIndented (space : Text) : Nat → JsonNode ν → Emit
  | _, .null => SB.sbPuts null
  | _, .bool value => SB.sbPuts (if value then true' else false')
  | _, .string value => emitString value.memory
  | _, .number value => emitNumber doubles value
  | level, .array elements =>
    if elements.isEmpty then SB.sbPuts ['['.toUInt8,']'.toUInt8]
    else also (SB.sbPuts ['['.toUInt8,0x0A]) (also (emitElementsIndented space level elements)
      (also (indent space level) (SB.sbPutc ']'.toUInt8)))
  | level, .object members =>
    if members.isEmpty then SB.sbPuts ['{'.toUInt8,'}'.toUInt8]
    else also (SB.sbPuts ['{'.toUInt8,0x0A]) (also (emitMembersIndented space level members)
      (also (indent space level) (SB.sbPutc '}'.toUInt8)))

def emitElementsIndented (space : Text) : Nat → List (JsonNode ν) → Emit
  | _, [] => nothing
  | level, element::next => also (indent space (level+1)) (also (emitValueIndented space (level+1) element)
    (also (SB.sbPuts (if next.isEmpty then [0x0A] else [','.toUInt8,0x0A])) (emitElementsIndented space level next)))

def emitMembersIndented (space : Text) : Nat → List (CText × JsonNode ν) → Emit
  | _, [] => nothing
  | level, (key,value)::next => also (indent space (level+1)) (also (emitString key.memory)
    (also (SB.sbPuts [':'.toUInt8,0x20]) (also (emitValueIndented space (level+1) value)
    (also (SB.sbPuts (if next.isEmpty then [0x0A] else [','.toUInt8,0x0A])) (emitMembersIndented space level next)))))

end

def jsonStringify (node : JsonNode ν) (space : Option CText) : Option CText := do
  let sb ← match space with
    | some space => emitValueIndented doubles space.bytes 0 node SB.sbInit
    | none => emitValue doubles node SB.sbInit
  sb.sbFinish

end Numbers

def jsonEncodeString (str : CText) : Option CText := (emitString str.memory SB.sbInit).bind SB.sbFinish

example : (jsonEncodeString ⟨[0x41,0x22,0x1F,0x0A,0x01,0xC3,0xA9],by decide⟩).map CText.bytes =
    some [0x22,0x41,0x5C,0x22,0x1F,0x5C,0x6E,0x5C,0x75,0x30,0x30,0x30,0x31,0xC3,0xA9,0x22] := by decide +kernel

end PennDaq.JsonText
