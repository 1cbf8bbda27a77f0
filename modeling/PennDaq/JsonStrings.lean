import PennDaq.JsonText

/-! Strings in JSON text: how `parse_string` reads them, and the texts that it takes. -/
namespace PennDaq.JsonStrings
open Lib.Cursor Lib.Bracketed PennDaq.Utf8 PennDaq.StringBuffer PennDaq.JsonNumbers PennDaq.JsonText

def orFault {α : Type} (value : Option α) : Reader UInt8 α := fun s => match value with
  | some value => .done value s
  | none => .fault

def orFail {α : Type} (value : Option α) : Reader UInt8 α := fun s => match value with
  | some value => .done value s
  | none => .failed

def isQuote (c : UInt8) : Bool := c = '"'.toUInt8

def isBackslash (c : UInt8) : Bool := c = '\\'.toUInt8

inductive Escape where
  | byte (value : UInt8)
  | unicode
  deriving DecidableEq

def escape (c : UInt8) : Option Escape :=
  if c = '"'.toUInt8 ∨ c = '\\'.toUInt8 ∨ c = '/'.toUInt8 then some (.byte c)
  else if c = 'b'.toUInt8 then some (.byte 0x08)
  else if c = 'f'.toUInt8 then some (.byte 0x0C)
  else if c = 'n'.toUInt8 then some (.byte 0x0A)
  else if c = 'r'.toUInt8 then some (.byte 0x0D)
  else if c = 't'.toUInt8 then some (.byte 0x09)
  else if c = 'u'.toUInt8 then some .unicode
  else none

def unicodeEscape : Reader UInt8 Text := do
  let uc ← parseHex16
  if uc ≥ 0xD800 ∧ uc ≤ 0xDFFF then
    expect '\\'.toUInt8
    expect 'u'.toUInt8
    let lc ← parseHex16
    let unicode ← orFail (fromSurrogatePair uc lc)
    orFault (utf8WriteChar unicode)
  else if uc = 0 then fail
  else orFault (utf8WriteChar uc.toUInt32)

def echoChar : Reader UInt8 Text := fun s => match utf8ValidateCz s with
  | none => .fault
  | some len => if len = 0 then .failed else .done (s.take len) (s.drop len)

def stringChar : Reader UInt8 Text := do
  if ← accept isBackslash then
    match ← take escape with
    | .byte c => return [c]
    | .unicode => unicodeEscape
  else
    let c ← peek
    if c ≤ 0x1F then fail else echoChar

def stringChars : Nat → SB → Reader UInt8 SB
  | 0, _ => starve
  | passes+1, sb => do
    if ← accept isQuote then return sb
    else
      let bytes ← stringChar
      let sb ← orFault (sb.write bytes)
      stringChars passes (sb.sbNeed 4)

def parseString : Reader UInt8 CText := do
  expect '"'.toUInt8
  let s ← here
  let sb ← stringChars s.length (SB.sbInit.sbNeed 4)
  orFault sb.sbFinish

inductive CharText : Text → Text → Prop where
  | plain {c : Char} (notControl : 0x20 ≤ c.val.toNat) (notQuote : c.val.toNat ≠ 0x22)
    (notBackslash : c.val.toNat ≠ 0x5C) : CharText (String.utf8EncodeChar c) (String.utf8EncodeChar c)
  | short {letter value} (escaped : escape letter = some (.byte value)) : CharText [value] ['\\'.toUInt8,letter]
  | code {uc text} {c : Char} (digits : HexText uc text) (value : c.val.toNat = uc.toNat) (notZero : uc ≠ 0) :
    CharText (String.utf8EncodeChar c) ('\\'.toUInt8 :: 'u'.toUInt8::text)
  | pair {uc lc text text'} {c : Char} (high : HexText uc text) (low : HexText lc text')
    (pair : toSurrogatePair c.val = some (uc,lc)) :
    CharText (String.utf8EncodeChar c) ('\\'.toUInt8 :: 'u'.toUInt8::(text ++ '\\'.toUInt8 :: 'u'.toUInt8::text'))

inductive CharsText : Text → Text → Prop where
  | none : CharsText [] []
  | more {value text values later} (first : CharText value text) (others : CharsText values later) :
    CharsText (value ++ values) (text ++ later)

inductive StringText : Text → Text → Prop where
  | mk {value text} (chars : CharsText value text) : StringText value ('"'.toUInt8::(text ++ ['"'.toUInt8]))

def lowEscape : Escape → Bool
  | .byte value => value.toNat ≠ 0 ∧ value.toNat ≤ 0x7F
  | .unicode => true

theorem escapeLow {letter value : UInt8} (escaped : escape letter = some (.byte value)) :
    value.toNat ≠ 0 ∧ value.toNat ≤ 0x7F := by
  have all := everyByte (P := fun letter => (escape letter).all lowEscape = true) (by decide +kernel) letter
  rw [escaped, Option.all_some] at all
  exact of_decide_eq_true all

theorem escapeUnicode {letter : UInt8} (escaped : escape letter = some .unicode) : letter = 'u'.toUInt8 :=
  everyByte (P := fun letter => escape letter = some .unicode → letter = 'u'.toUInt8) (by decide +kernel) letter escaped

theorem charTextChar {value text : Text} (offered : CharText value text) :
    ∃ c : Char, c.val.toNat ≠ 0 ∧ value = String.utf8EncodeChar c := by
  cases offered with
  | @plain c notControl _ _ => exact ⟨c,by omega,rfl⟩
  | @short letter value escaped =>
    obtain ⟨notZero, low⟩ := escapeLow escaped
    obtain ⟨c, same, bytes⟩ := encodeFormed (.one low)
    exact ⟨c,by rw [same]; exact notZero,bytes.symm⟩
  | @code uc text c digits same notZero =>
    refine ⟨c,?_,rfl⟩
    rw [same]
    exact fun zero => notZero (UInt16.toNat_inj.mp zero)
  | @pair uc lc text text' c high low pair =>
    obtain ⟨least, _⟩ := toSurrogatePairSome pair
    exact ⟨c,by omega,rfl⟩

theorem charTextShort {value text : Text} (offered : CharText value text) : value.length ≤ 4 := by
  obtain ⟨c, _, rfl⟩ := charTextChar offered
  rw [String.length_utf8EncodeChar]
  exact c.utf8Size_le_four

theorem charsTextChars {value text : Text} (offered : CharsText value text) :
    ∃ chars, (∀ c ∈ chars, c.val.toNat ≠ 0) ∧ value = encode chars := by
  induction offered with
  | none => exact ⟨[],by simp,rfl⟩
  | more first _ ih =>
    obtain ⟨c, notZero, rfl⟩ := charTextChar first
    obtain ⟨chars, others, rfl⟩ := ih
    exact ⟨c::chars,List.forall_mem_cons.mpr ⟨notZero,others⟩,rfl⟩

theorem orFaultDone {α : Type} {value : Option α} {s rest : Text} {a : α} (done : orFault value s = .done a rest) :
    value = some a ∧ s = rest := by
  cases value with
  | none => cases done
  | some v =>
    cases done
    exact ⟨rfl,rfl⟩

theorem orFailDone {α : Type} {value : Option α} {s rest : Text} {a : α} (done : orFail value s = .done a rest) :
    value = some a ∧ s = rest := by
  cases value with
  | none => cases done
  | some v =>
    cases done
    exact ⟨rfl,rfl⟩

theorem unicodeEscapeRead {s rest bytes : Text} (done : unicodeEscape s = .done bytes rest) :
    ∃ text, s = text ++ rest ∧ CharText bytes ('\\'.toUInt8 :: 'u'.toUInt8::text) := by
  unfold unicodeEscape at done
  obtain ⟨uc, s₁, first, done₁⟩ := bindDone.mp done
  obtain ⟨text, rfl, digits⟩ := parseHex16Read first
  split at done₁
  case isTrue surrogate =>
    obtain ⟨_, s₂, backslash, done₂⟩ := bindDone.mp done₁
    obtain ⟨_, s₃, letter, done₃⟩ := bindDone.mp done₂
    obtain ⟨lc, s₄, second, done₄⟩ := bindDone.mp done₃
    obtain ⟨text', split, digits'⟩ := parseHex16Read second
    obtain ⟨unicode, s₅, paired, done₅⟩ := bindDone.mp done₄
    obtain ⟨pair, same⟩ := orFailDone paired
    obtain ⟨written, same'⟩ := orFaultDone done₅
    obtain ⟨c, value, rfl⟩ := utf8WriteCharSome written
    rw [← value] at pair
    rw [expectDone backslash, expectDone letter, split, same, same']
    exact ⟨text ++ '\\'.toUInt8 :: 'u'.toUInt8::text',by simp,
      .pair digits digits' ((surrogatePairsExact _ _ _).mp pair)⟩
  case isFalse =>
    split at done₁
    case isTrue => cases done₁
    case isFalse notZero =>
      obtain ⟨written, same⟩ := orFaultDone done₁
      obtain ⟨c, value, rfl⟩ := utf8WriteCharSome written
      rw [same]
      refine ⟨text,rfl,.code digits ?_ notZero⟩
      rw [value, UInt16.toNat_toUInt32]

theorem echoCharRead {s rest bytes : Text} (done : echoChar s = .done bytes rest) :
    ∃ c : Char, s = String.utf8EncodeChar c ++ rest ∧ bytes = String.utf8EncodeChar c := by
  unfold echoChar at done
  cases checked : utf8ValidateCz s with
  | none =>
    rw [checked] at done
    cases done
  | some len =>
    rw [checked] at done
    dsimp only at done
    split at done
    case isTrue => cases done
    case isFalse some =>
      obtain ⟨c, later, rfl, length⟩ := validateReads checked some
      rw [← length, List.take_left, List.drop_left] at done
      cases done
      exact ⟨c,rfl,rfl⟩

theorem headLow {b : UInt8} {s rest : Text} {c : Char} (split : b::s = String.utf8EncodeChar c ++ rest)
    (low : c.val.toNat ≤ 0x7F) : b.toNat = c.val.toNat := by
  rw [encodeLow low] at split
  rw [(List.cons.inj split).1, lowByte low]

theorem stringCharRead {c : UInt8} {s rest bytes : Text} (notQuote : isQuote c = false)
    (done : stringChar (c::s) = .done bytes rest) : ∃ text, c::s = text ++ rest ∧ CharText bytes text := by
  unfold stringChar at done
  obtain ⟨escaped, s₁, tried, done₁⟩ := bindDone.mp done
  cases escaped with
  | true =>
    obtain ⟨d, same, tested⟩ := acceptTook tried
    have backslash : d = '\\'.toUInt8 := of_decide_eq_true tested
    obtain ⟨kind, s₂, taken, done₂⟩ := bindDone.mp done₁
    obtain ⟨letter, rfl, some⟩ := takeDone taken
    rw [same, backslash]
    cases kind with
    | byte value =>
      obtain ⟨rfl, rfl⟩ := pureDone.mp done₂
      exact ⟨['\\'.toUInt8,letter],rfl,.short some⟩
    | unicode =>
      obtain ⟨text, rfl, offered⟩ := unicodeEscapeRead done₂
      exact ⟨_,by rw [escapeUnicode some]; rfl,offered⟩
  | false =>
    obtain ⟨rfl, d, later, same, notBackslash⟩ := acceptLeft tried
    obtain ⟨rfl, rfl⟩ := List.cons.inj same
    obtain ⟨e, s₂, peeked, done₂⟩ := bindDone.mp done₁
    cases peeked
    split at done₂
    case isTrue => cases done₂
    case isFalse notControl =>
      obtain ⟨char, split, rfl⟩ := echoCharRead done₂
      have low := fun low => headLow split low
      have notQuote := of_decide_eq_false notQuote
      have notBackslash := of_decide_eq_false notBackslash
      rw [← UInt8.toNat_inj] at notQuote notBackslash
      rw [UInt8.le_iff_toNat_le] at notControl
      change ¬c.toNat ≤ 31 at notControl
      change c.toNat ≠ 0x22 at notQuote
      change c.toNat ≠ 0x5C at notBackslash
      exact ⟨_,split,.plain (by omega) (by omega) (by omega)⟩

theorem stringCharsRead {passes : Nat} {sb sb' : SB} {s rest : Text} (done : stringChars passes sb s = .done sb' rest) :
    ∃ value text, s = text ++ '"'.toUInt8::rest ∧ sb'.bytes = sb.bytes ++ value ∧ CharsText value text := by
  induction passes generalizing sb s with
  | zero => cases done
  | succ passes ih =>
    unfold stringChars at done
    obtain ⟨closed, s₁, tried, done₁⟩ := bindDone.mp done
    cases closed with
    | true =>
      obtain ⟨rfl, rfl⟩ := pureDone.mp done₁
      obtain ⟨c, rfl, tested⟩ := acceptTook tried
      exact ⟨[],[],by rw [of_decide_eq_true tested]; rfl,by simp,.none⟩
    | false =>
      obtain ⟨kept, c, later, same, notQuote⟩ := acceptLeft tried
      obtain ⟨bytes, s₂, one, done₂⟩ := bindDone.mp done₁
      obtain ⟨sb₁, s₃, stored, done₃⟩ := bindDone.mp done₂
      obtain ⟨written, rfl⟩ := orFaultDone stored
      rw [kept, same] at one
      obtain ⟨text, split, first⟩ := stringCharRead notQuote one
      obtain ⟨values, later', rfl, appended, others⟩ := ih done₃
      have bytes' : sb₁.bytes = sb.bytes ++ bytes := SB.writeBytes written
      exact ⟨bytes ++ values,text ++ later',by rw [same, split]; simp,by rw [appended, SB.sbNeedBytes, bytes']; simp,
        .more first others⟩

theorem parseStringRead {s rest : Text} {str : CText} (done : parseString s = .done str rest) :
    ∃ text, s = text ++ rest ∧ StringText str.bytes text := by
  unfold parseString at done
  obtain ⟨_, s₁, opened, done₁⟩ := bindDone.mp done
  obtain ⟨s₂, s₃, here, done₂⟩ := bindDone.mp done₁
  cases here
  obtain ⟨sb, s₄, chars, done₃⟩ := bindDone.mp done₂
  obtain ⟨finished, rfl⟩ := orFaultDone done₃
  obtain ⟨value, text, split, bytes, offered⟩ := stringCharsRead chars
  have same : str.bytes = value := by
    rw [SB.sbFinishBytes finished, bytes, SB.sbNeedBytes]
    rfl
  rw [expectDone opened, split, same]
  exact ⟨'"'.toUInt8::(text ++ ['"'.toUInt8]),by simp,.mk offered⟩

theorem codeTaken {uc : UInt16} {text : Text} {c : Char} (digits : HexText uc text) (value : c.val.toNat = uc.toNat)
    (notZero : uc ≠ 0) (rest : Text) : unicodeEscape (text ++ rest) = .done (String.utf8EncodeChar c) rest := by
  have whole : ¬(uc ≥ 0xD800 ∧ uc ≤ 0xDFFF) := by
    have range := scalar c
    simp only [ge_iff_le, UInt16.le_iff_toNat_le, UInt16.reduceToNat]
    omega
  have same : uc.toUInt32 = c.val := UInt32.toNat_inj.mp (by rw [UInt16.toNat_toUInt32, value])
  unfold unicodeEscape
  rw [doneBind (parseHex16Taken digits rest), if_neg whole, if_neg notZero, same, utf8WriteCharIs]
  rfl

theorem pairTaken {uc lc : UInt16} {text text' : Text} {c : Char} (high : HexText uc text) (low : HexText lc text')
    (pair : toSurrogatePair c.val = some (uc,lc)) (rest : Text) :
    unicodeEscape (text ++ '\\'.toUInt8 :: 'u'.toUInt8::(text' ++ rest)) = .done (String.utf8EncodeChar c) rest := by
  have paired := (surrogatePairsExact _ _ _).mpr pair
  obtain ⟨first, _⟩ := fromSurrogatePairSome paired
  have surrogate : uc ≥ 0xD800 ∧ uc ≤ 0xDFFF := by
    simp only [ge_iff_le, UInt16.le_iff_toNat_le, UInt16.reduceToNat]
    omega
  unfold unicodeEscape
  rw [doneBind (parseHex16Taken high _), if_pos surrogate, doneBind (expectSame _ _), doneBind (expectSame _ _),
    doneBind (parseHex16Taken low rest), paired]
  refine (doneBind rfl).trans ?_
  rw [utf8WriteCharIs]
  rfl

theorem encodeHead (c : Char) : ∃ first tail, String.utf8EncodeChar c = first::tail ∧
    (c.val.toNat ≤ 0x7F → first.toNat = c.val.toNat) ∧ (0x7F < c.val.toNat → 0x80 ≤ first.toNat) := by
  cases bytes : String.utf8EncodeChar c with
  | nil => exact absurd bytes String.utf8EncodeChar_ne_nil
  | cons first tail =>
    have split : first::tail = String.utf8EncodeChar c ++ [] := by rw [bytes, List.append_nil]
    exact ⟨first,tail,rfl,headLow split,fun high => encodeHigh high first (by simp [bytes])⟩

theorem stringCharTaken {bytes text : Text} (offered : CharText bytes text) (rest : Text) :
    (∃ c later, text = c::later ∧ isQuote c = false) ∧ stringChar (text ++ rest) = .done bytes rest := by
  have slash : isBackslash '\\'.toUInt8 = true := by decide
  have slashNotQuote : isQuote '\\'.toUInt8 = false := by decide
  have unicode : escape 'u'.toUInt8 = some .unicode := by decide
  cases offered with
  | @plain c notControl notQuote notBackslash =>
    obtain ⟨first, tail, bytes, low, high⟩ := encodeHead c
    have apart : first.toNat ≠ 0x22 ∧ first.toNat ≠ 0x5C ∧ ¬first.toNat ≤ 0x1F := by omega
    have quote : isQuote first = false := decide_eq_false fun same => apart.1 (by rw [same]; rfl)
    have backslash : isBackslash first = false := decide_eq_false fun same => apart.2.1 (by rw [same]; rfl)
    have control : ¬first ≤ 0x1F := fun below => apart.2.2 (UInt8.le_iff_toNat_le.mp below)
    have checked := validateEncoded c rest
    have some : (String.utf8EncodeChar c).length ≠ 0 := (encodedNotEmpty c).ne'
    refine ⟨⟨first,tail,bytes,quote⟩,?_⟩
    have echoed : echoChar (String.utf8EncodeChar c ++ rest) = .done (String.utf8EncodeChar c) rest := by
      unfold echoChar
      rw [checked]
      dsimp only
      rw [if_neg some, List.take_left, List.drop_left]
    rw [bytes] at echoed ⊢
    unfold stringChar
    rw [List.cons_append, doneBind (acceptFalse isBackslash backslash _)]
    simp only [Bool.false_eq_true, if_false]
    rw [doneBind (peekDone _ _), if_neg control]
    exact echoed
  | @short letter value escaped =>
    exact ⟨⟨_,_,rfl,slashNotQuote⟩,(doneBind (acceptTrue isBackslash slash _)).trans (doneBind (takeSome escaped rest))⟩
  | @code uc text c digits value notZero =>
    exact ⟨⟨_,_,rfl,slashNotQuote⟩,(doneBind (acceptTrue isBackslash slash _)).trans
      ((doneBind (takeSome unicode _)).trans (codeTaken digits value notZero rest))⟩
  | @pair uc lc text text' c high low pair =>
    have taken := pairTaken high low pair rest
    refine ⟨⟨_,_,rfl,slashNotQuote⟩,(doneBind (acceptTrue isBackslash slash _)).trans
      ((doneBind (takeSome unicode _)).trans ?_)⟩
    change unicodeEscape ((text ++ '\\'.toUInt8 :: 'u'.toUInt8::text') ++ rest) = _
    rw [List.append_assoc]
    exact taken

theorem charsNotEmpty {value text : Text} (offered : CharText value text) : 0 < text.length := by
  obtain ⟨⟨c, later, rfl, _⟩, _⟩ := stringCharTaken offered []
  exact Nat.succ_pos _

theorem stringCharsTaken {value text : Text} (offered : CharsText value text) {passes : Nat}
    (enough : text.length < passes) (sb : SB) (room : sb.bytes.length+4 ≤ sb.alloc) (rest : Text) :
    ∃ sb', stringChars passes sb (text ++ '"'.toUInt8::rest) = .done sb' rest ∧ sb'.bytes = sb.bytes ++ value := by
  have quote : isQuote '"'.toUInt8 = true := by decide
  induction offered generalizing passes sb with
  | none =>
    cases passes with
    | zero => omega
    | succ passes => exact ⟨sb,doneBind (acceptTrue isQuote quote rest),by simp⟩
  | @more value text values later first others ih =>
    cases passes with
    | zero => omega
    | succ passes =>
      obtain ⟨⟨c, tail, head, notQuote⟩, taken⟩ := stringCharTaken first (later ++ '"'.toUInt8::rest)
      have short := charTextShort first
      have some := charsNotEmpty first
      obtain ⟨sb₁, written, stored, _⟩ := @SB.writeInside sb value (by omega)
      have again : (sb₁.sbNeed 4).bytes.length+4 ≤ (sb₁.sbNeed 4).alloc := by
        have := sb₁.sbNeedRoom 4
        rw [SB.sbNeedBytes]
        omega
      obtain ⟨sb', done, all⟩ := @ih passes (by simp at enough; omega) (sb₁.sbNeed 4) again
      refine ⟨sb',?_,by rw [all, SB.sbNeedBytes, stored, List.append_assoc]⟩
      unfold stringChars
      rw [List.append_assoc]
      have left : accept isQuote (text ++ (later ++ '"'.toUInt8::rest)) =
          .done false (text ++ (later ++ '"'.toUInt8::rest)) := by
        rw [head]
        exact acceptFalse isQuote notQuote _
      rw [doneBind left]
      simp only [Bool.false_eq_true, if_false]
      rw [doneBind taken, written]
      exact (doneBind rfl).trans done

theorem parseStringTaken {str : CText} {text : Text} (offered : StringText str.bytes text) (rest : Text) :
    parseString (text ++ rest) = .done str rest := by
  cases offered with
  | @mk body chars =>
    have enough : body.length < (body ++ '"'.toUInt8::rest).length := by simp
    have room := SB.sbInit.sbNeedRoom 4
    rw [← SB.sbNeedBytes SB.sbInit 4] at room
    obtain ⟨sb, done, bytes⟩ := stringCharsTaken chars enough (SB.sbInit.sbNeed 4) room rest
    have same : sb.bytes = str.bytes := by
      rw [bytes, SB.sbNeedBytes]
      rfl
    have finished : sb.sbFinish = some str := by
      rw [SB.sbFinishSome (by rw [same]; exact str.apart)]
      congr
    unfold parseString
    rw [List.cons_append, List.append_assoc, doneBind (expectSame _ _), doneBind hereDone]
    refine (doneBind done).trans ?_
    rw [finished]
    rfl

theorem orFaultSafe {α : Type} {value : Option α} (some : value ≠ none) {most : Nat} : Safe 0 most 0 (orFault value) := by
  cases value with
  | none => exact absurd rfl some
  | some value => exact safePure value

theorem orFailSafe {α γ : Type} {value : Option α} {next : α → Reader UInt8 γ} {most least : Nat}
    (after : ∀ a, value = some a → Safe 0 most least (next a)) : Safe 0 most least (orFail value >>= next) := by
  cases value with
  | none =>
    intro s _ _
    trivial
  | some a => exact fun s inside short => after a rfl s inside short

theorem writeCharSome {unicode : UInt32} (valid : unicode.isValidChar) : utf8WriteChar unicode ≠ none := by
  rw [utf8WriteCharIs ⟨unicode,valid⟩]
  exact Option.some_ne_none _

theorem unicodeEscapeSafe {most : Nat} : Safe 0 most 0 unicodeEscape := by
  refine safeWeaken (safeFirst parseHex16Safe fun uc => ?_) (Nat.le_refl most) (Nat.zero_le 4)
  split
  case isTrue surrogate =>
    refine safeWeaken (safeFirst (safeExpect (by decide)) fun _ => ?_) (Nat.le_refl _) (Nat.zero_le 1)
    refine safeWeaken (safeFirst (safeExpect (by decide)) fun _ => ?_) (Nat.le_refl _) (Nat.zero_le 1)
    refine safeWeaken (safeFirst parseHex16Safe fun lc => ?_) (Nat.le_refl _) (Nat.zero_le 4)
    refine orFailSafe fun unicode paired => orFaultSafe (writeCharSome ?_)
    obtain ⟨least, last, _⟩ := toSurrogatePairSome ((surrogatePairsExact _ _ _).mp paired)
    exact Or.inr ⟨by omega,by omega⟩
  case isFalse whole =>
    split
    case isTrue => exact safeFail
    case isFalse =>
      refine orFaultSafe (writeCharSome ?_)
      simp only [ge_iff_le, UInt16.le_iff_toNat_le, UInt16.reduceToNat] at whole
      have := uc.toNat_lt
      rw [UInt32.isValidChar, Nat.isValidChar, UInt16.toNat_toUInt32]
      omega

theorem echoCharSafe {most : Nat} : Safe 0 most 1 (do
    let c ← peek
    if c ≤ 0x1F then fail else echoChar) := by
  intro s inside _
  cases s with
  | nil => cases inside
  | cons c later =>
    rw [doneBind (peekDone c later)]
    split
    case isTrue => trivial
    case isFalse notControl =>
      obtain ⟨len, checked⟩ := validateInside inside
      unfold echoChar
      rw [checked]
      dsimp only
      split
      case isTrue => trivial
      case isFalse some =>
        obtain ⟨char, rest, same, length⟩ := validateReads checked some
        have notZero : char.val.toNat ≠ 0 := fun zero => by
          have := headLow same (by omega)
          rw [UInt8.le_iff_toNat_le] at notControl
          omega
        rw [← length, same, List.drop_left]
        rw [same] at inside
        have := encodedNotEmpty char
        exact ⟨(List.mem_append.mp inside).resolve_left (zeroNotEncoded notZero),by rw [List.length_append]; omega⟩

theorem stringCharSafe {most : Nat} : Safe 0 most 1 stringChar := by
  refine safeBranch (by decide) ?_ echoCharSafe
  refine safeWeaken (safeFirst (safeTake (by decide)) fun kind => ?_) (Nat.le_refl _) (Nat.zero_le 1)
  cases kind with
  | byte c => exact safePure [c]
  | unicode => exact unicodeEscapeSafe

theorem stringCharsSafe {passes : Nat} {sb : SB} (room : sb.bytes.length+4 ≤ sb.alloc) :
    Safe 0 passes 0 (stringChars passes sb) := by
  induction passes generalizing sb with
  | zero =>
    intro s inside short
    have empty : s = [] := List.eq_nil_of_length_eq_zero (by omega)
    rw [empty] at inside
    cases inside
  | succ passes ih =>
    intro s inside short
    cases s with
    | nil => cases inside
    | cons c later =>
      unfold stringChars
      cases quote : isQuote c with
      | true =>
        rw [doneBind (acceptTrue isQuote quote later)]
        have other : c ≠ 0 := fun zero => by
          rw [zero] at quote
          exact absurd quote (by decide)
        exact ⟨memOfCons inside other,by simp⟩
      | false =>
        rw [doneBind (acceptFalse isQuote quote later)]
        simp only [Bool.false_eq_true, if_false]
        have held := stringCharSafe _ inside short
        refine withinWeaken (withinBind held fun bytes rest one again fewer => ?_) (Nat.zero_le (1+0))
        obtain ⟨text, _, offered⟩ := stringCharRead quote one
        have := charTextShort offered
        obtain ⟨sb₁, written, _, _⟩ := @SB.writeInside sb bytes (by omega)
        have more := sb₁.sbNeedRoom 4
        rw [← SB.sbNeedBytes sb₁ 4] at more
        rw [written]
        exact ih more rest again (by simp at short fewer; omega)

theorem parseStringSafe {most : Nat} : Safe 0 most 1 parseString := by
  refine safeFirst (safeExpect (by decide)) fun _ => ?_
  intro s inside short
  have room := SB.sbInit.sbNeedRoom 4
  rw [← SB.sbNeedBytes SB.sbInit 4] at room
  rw [doneBind hereDone]
  refine withinWeaken (withinBind (stringCharsSafe room s inside (Nat.le_refl _)) fun sb rest chars again fewer => ?_)
    (Nat.zero_le (0+0))
  obtain ⟨value, text, _, bytes, offered⟩ := stringCharsRead chars
  obtain ⟨characters, apart, rfl⟩ := charsTextChars offered
  have closed : 0 ∉ sb.bytes := by
    rw [bytes, SB.sbNeedBytes]
    exact encodeApart apart
  rw [SB.sbFinishSome closed]
  exact ⟨again,Nat.le_refl _⟩

end PennDaq.JsonStrings
