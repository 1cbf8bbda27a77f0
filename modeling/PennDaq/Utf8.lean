import Mathlib.Data.Nat.Bitwise
import PennDaq.Lib.Cursor

/-! The Unicode helpers of the JSON library: UTF-8 characters checked, read and written at a
pointer, surrogate pairs, and four hexadecimal digits. Reads start from a pointer into a
string that a zero byte closes, given as the bytes from there on; there is no result where
a read leaves the memory or an assertion fails. -/
namespace PennDaq.Utf8
open Lib.Cursor

abbrev Text := List UInt8

structure CText where
  bytes : Text
  apart : 0 ∉ bytes
  deriving DecidableEq

def CText.memory (str : CText) : Text := str.bytes ++ [0]

def utf8ValidateCz (s : Text) : Option Nat := do
  let c ← s[0]?
  if c ≤ 0x7F then
    some 1
  else if c ≤ 0xC1 then
    some 0
  else if c ≤ 0xDF then do
    let c₁ ← s[1]?
    if c₁ &&& 0xC0 ≠ 0x80 then some 0 else some 2
  else if c ≤ 0xEF then do
    let c₁ ← s[1]?
    if c = 0xE0 ∧ c₁ < 0xA0 then some 0
    else if c = 0xED ∧ 0x9F < c₁ then some 0
    else if c₁ &&& 0xC0 ≠ 0x80 then some 0
    else do
      let c₂ ← s[2]?
      if c₂ &&& 0xC0 ≠ 0x80 then some 0 else some 3
  else if c ≤ 0xF4 then do
    let c₁ ← s[1]?
    if c = 0xF0 ∧ c₁ < 0x90 then some 0
    else if c = 0xF4 ∧ 0x8F < c₁ then some 0
    else if c₁ &&& 0xC0 ≠ 0x80 then some 0
    else do
      let c₂ ← s[2]?
      if c₂ &&& 0xC0 ≠ 0x80 then some 0
      else do
        let c₃ ← s[3]?
        if c₃ &&& 0xC0 ≠ 0x80 then some 0 else some 4
  else
    some 0

/- The loop is cut off after `passes` characters. -/
def utf8ValidateFrom : Nat → Text → Option Bool
  | 0, _ => none
  | passes+1, s => do
    let c ← s[0]?
    if c = 0 then some true
    else do
      let len ← utf8ValidateCz s
      if len = 0 then some false else utf8ValidateFrom passes (s.drop len)

def utf8Validate (s : Text) : Option Bool := utf8ValidateFrom s.length s

def utf8ReadChar (s : Text) : Option (UInt32 × Nat) := do
  let len ← utf8ValidateCz s
  if len = 0 then none
  else do
    let c₀ ← s[0]?
    if c₀ ≤ 0x7F then
      some (c₀.toUInt32,1)
    else if c₀ ≤ 0xDF then do
      let c₁ ← s[1]?
      some ((c₀.toUInt32 &&& 0x1F) <<< 6 ||| (c₁.toUInt32 &&& 0x3F),2)
    else if c₀ ≤ 0xEF then do
      let c₁ ← s[1]?
      let c₂ ← s[2]?
      some ((c₀.toUInt32 &&& 0xF) <<< 12 ||| (c₁.toUInt32 &&& 0x3F) <<< 6 ||| (c₂.toUInt32 &&& 0x3F),3)
    else do
      let c₁ ← s[1]?
      let c₂ ← s[2]?
      let c₃ ← s[3]?
      some ((c₀.toUInt32 &&& 0x7) <<< 18 ||| (c₁.toUInt32 &&& 0x3F) <<< 12 |||
        (c₂.toUInt32 &&& 0x3F) <<< 6 ||| (c₃.toUInt32 &&& 0x3F),4)

def marked (mark bits : UInt32) : UInt8 := (mark ||| bits).toUInt8

def utf8WriteChar (unicode : UInt32) : Option Text :=
  if unicode ≤ 0x10FFFF ∧ ¬(unicode ≥ 0xD800 ∧ unicode ≤ 0xDFFF) then
    if unicode ≤ 0x7F then
      some [unicode.toUInt8]
    else if unicode ≤ 0x7FF then
      some [marked 0xC0 (unicode >>> 6),marked 0x80 (unicode &&& 0x3F)]
    else if unicode ≤ 0xFFFF then
      some [marked 0xE0 (unicode >>> 12),marked 0x80 (unicode >>> 6 &&& 0x3F),marked 0x80 (unicode &&& 0x3F)]
    else
      some [marked 0xF0 (unicode >>> 18),marked 0x80 (unicode >>> 12 &&& 0x3F),
        marked 0x80 (unicode >>> 6 &&& 0x3F),marked 0x80 (unicode &&& 0x3F)]
  else none

def fromSurrogatePair (uc lc : UInt16) : Option UInt32 :=
  if uc ≥ 0xD800 ∧ uc ≤ 0xDBFF ∧ lc ≥ 0xDC00 ∧ lc ≤ 0xDFFF then
    some ((0x10000 : UInt32) + ((uc.toUInt32 &&& 0x3FF) <<< 10 ||| (lc &&& 0x3FF).toUInt32))
  else none

def toSurrogatePair (unicode : UInt32) : Option (UInt16 × UInt16) :=
  if unicode ≥ 0x10000 ∧ unicode ≤ 0x10FFFF then
    let n := unicode - 0x10000
    some ((((n >>> 10) &&& 0x3FF) ||| 0xD800).toUInt16,((n &&& 0x3FF) ||| 0xDC00).toUInt16)
  else none

def hexDigit (c : UInt8) : Option UInt16 :=
  if c ≥ 0x30 ∧ c ≤ 0x39 then some (c.toUInt16 - 0x30)
  else if c ≥ 0x41 ∧ c ≤ 0x46 then some (c.toUInt16 - 0x41 + 10)
  else if c ≥ 0x61 ∧ c ≤ 0x66 then some (c.toUInt16 - 0x61 + 10)
  else none

def hexDigits : Nat → UInt16 → Reader UInt8 UInt16
  | 0, ret => pure ret
  | digits+1, ret => do
    let tmp ← take hexDigit
    hexDigits digits ((ret <<< 4) + tmp)

def parseHex16 : Reader UInt8 UInt16 := hexDigits 4 0

def hex (digit : UInt16) : UInt8 := if digit < 10 then 0x30 + digit.toUInt8 else 0x37 + digit.toUInt8

def writeHex16 (val : UInt16) : Text :=
  [hex ((val >>> 12) &&& 0xF),hex ((val >>> 8) &&& 0xF),hex ((val >>> 4) &&& 0xF),hex (val &&& 0xF)]

def encode (text : List Char) : Text := text.flatMap String.utf8EncodeChar

abbrev Tail (c : UInt8) : Prop := 0x80 ≤ c.toNat ∧ c.toNat ≤ 0xBF

theorem everyByte {P : UInt8 → Prop} (all : ∀ n < 256, P (UInt8.ofNat n)) (c : UInt8) : P c := by
  have held := all c.toNat c.toNat_lt
  rwa [UInt8.ofNat_toNat] at held

theorem continuation : ∀ c : UInt8, c &&& 0xC0 = 0x80 ↔ Tail c := everyByte (by decide +kernel)

theorem lowBits (n k : Nat) : n &&& (2^k-1) = n % 2^k := Nat.and_two_pow_sub_one_eq_mod n k

theorem beside (high low k : Nat) (fits : low < 2^k) : high*2^k ||| low = high*2^k + low := by
  rw [← Nat.shiftLeft_eq, Nat.shiftLeft_add_eq_or_of_lt fits]

theorem markedIs {mark bits : UInt32} (high k : Nat) (aligned : mark.toNat = high*2^k) (fits : bits.toNat < 2^k) :
    marked mark bits = UInt8.ofNat (bits.toNat + mark.toNat) := by
  apply UInt8.toNat_inj.mp
  rw [marked, UInt32.toNat_toUInt8, UInt32.toNat_or, UInt8.toNat_ofNat', aligned, beside high _ k fits, Nat.add_comm]

theorem scalar (c : Char) : c.val.toNat < 0xD800 ∨ 0xDFFF < c.val.toNat ∧ c.val.toNat < 0x110000 := c.valid

theorem utf8WriteCharIs (c : Char) : utf8WriteChar c.val = some (String.utf8EncodeChar c) := by
  have range := scalar c
  have below : ∀ n : UInt32, c.val ≤ n ↔ c.val.toNat ≤ n.toNat := fun _ => UInt32.le_iff_toNat_le
  have allowed : c.val ≤ 0x10FFFF ∧ ¬(c.val ≥ 0xD800 ∧ c.val ≤ 0xDFFF) := by
    simp only [ge_iff_le, UInt32.le_iff_toNat_le, UInt32.reduceToNat]
    omega
  have low : ∀ n : UInt32, (n &&& 0x3F).toNat = n.toNat % 64 := fun n => by
    rw [UInt32.toNat_and]
    exact lowBits n.toNat 6
  have tail : ∀ n : UInt32, marked 0x80 (n &&& 0x3F) = UInt8.ofNat (n.toNat % 64 + 0x80) := fun n => by
    have small : (n &&& 0x3F).toNat < 2^6 := by
      rw [low]
      omega
    rw [markedIs 2 6 rfl small, low]
    rfl
  have shifted : ∀ n : UInt32, n.toNat < 32 → (c.val >>> n).toNat = c.val.toNat / 2^n.toNat := fun n short => by
    rw [UInt32.toNat_shiftRight, Nat.mod_eq_of_lt short, Nat.shiftRight_eq_div_pow]
  have by6 := shifted 6 (by decide)
  have by12 := shifted 12 (by decide)
  have by18 := shifted 18 (by decide)
  simp only [UInt32.reduceToNat, Nat.reducePow] at by6 by12 by18
  unfold utf8WriteChar String.utf8EncodeChar
  rw [if_pos allowed]
  simp only [below, UInt32.reduceToNat]
  split
  case isTrue one => rw [UInt8.ofNat_uInt32ToNat]
  case isFalse one =>
    split
    case isTrue two =>
      have high : (c.val >>> 6).toNat < 2^6 := by omega
      rw [markedIs 3 6 rfl high, tail, by6, Nat.mod_eq_of_lt (by omega : c.val.toNat/64 < 32)]
      rfl
    case isFalse two =>
      split
      case isTrue three =>
        have high : (c.val >>> 12).toNat < 2^4 := by omega
        rw [markedIs 14 4 rfl high, tail, tail, by6, by12, Nat.mod_eq_of_lt (by omega : c.val.toNat/4096 < 16)]
        rfl
      case isFalse three =>
        have high : (c.val >>> 18).toNat < 2^4 := by omega
        rw [markedIs 15 4 rfl high, tail, tail, tail, by6, by12, by18,
          Nat.mod_eq_of_lt (by omega : c.val.toNat/262144 < 8)]
        rfl

theorem classes (a : UInt8) : a.toNat ≤ 0x7F ∨ (0x80 ≤ a.toNat ∧ a.toNat ≤ 0xC1) ∨ (0xC2 ≤ a.toNat ∧ a.toNat ≤ 0xDF) ∨
    (0xE0 ≤ a.toNat ∧ a.toNat ≤ 0xEF) ∨ (0xF0 ≤ a.toNat ∧ a.toNat ≤ 0xF4) ∨ 0xF5 ≤ a.toNat := by omega

section Classes
variable {a : UInt8} (s : Text)

theorem checkOne (one : a.toNat ≤ 0x7F) : utf8ValidateCz (a::s) = some 1 := by
  simp [utf8ValidateCz, UInt8.le_iff_toNat_le, one]

theorem checkStray (stray : 0x80 ≤ a.toNat ∧ a.toNat ≤ 0xC1) : utf8ValidateCz (a::s) = some 0 := by
  have high : ¬a.toNat ≤ 0x7F := by omega
  simp [utf8ValidateCz, UInt8.le_iff_toNat_le, high, stray]

theorem checkTwo (two : 0xC2 ≤ a.toNat ∧ a.toNat ≤ 0xDF) :
    utf8ValidateCz (a::s) = s[0]?.bind fun b => if Tail b then some 2 else some 0 := by
  have high : ¬a.toNat ≤ 0x7F ∧ ¬a.toNat ≤ 0xC1 := by omega
  unfold utf8ValidateCz
  simp only [List.getElem?_cons_zero, List.getElem?_cons_succ, Option.bind_eq_bind, Option.bind_some]
  simp only [UInt8.le_iff_toNat_le, UInt8.reduceToNat, high, two, if_true, if_false, continuation, ne_eq, ite_not]

theorem checkThree (three : 0xE0 ≤ a.toNat ∧ a.toNat ≤ 0xEF) :
    utf8ValidateCz (a::s) = s[0]?.bind fun b =>
      if a.toNat = 0xE0 ∧ b.toNat < 0xA0 ∨ a.toNat = 0xED ∧ 0x9F < b.toNat ∨ ¬Tail b then some 0
      else s[1]?.bind fun c => if Tail c then some 3 else some 0 := by
  have high : ¬a.toNat ≤ 0x7F ∧ ¬a.toNat ≤ 0xC1 ∧ ¬a.toNat ≤ 0xDF := by omega
  have at' : (a = 0xE0 ↔ a.toNat = 0xE0) ∧ (a = 0xED ↔ a.toNat = 0xED) := ⟨UInt8.toNat_inj.symm,UInt8.toNat_inj.symm⟩
  unfold utf8ValidateCz
  simp only [List.getElem?_cons_zero, List.getElem?_cons_succ, Option.bind_eq_bind, Option.bind_some]
  simp only [UInt8.le_iff_toNat_le, UInt8.reduceToNat, high, three, if_true, if_false]
  simp only [UInt8.lt_iff_toNat_lt, UInt8.reduceToNat, continuation, at', ite_or, ne_eq, ite_not]

theorem checkFour (four : 0xF0 ≤ a.toNat ∧ a.toNat ≤ 0xF4) :
    utf8ValidateCz (a::s) = s[0]?.bind fun b =>
      if a.toNat = 0xF0 ∧ b.toNat < 0x90 ∨ a.toNat = 0xF4 ∧ 0x8F < b.toNat ∨ ¬Tail b then some 0
      else s[1]?.bind fun c => if ¬Tail c then some 0
      else s[2]?.bind fun d => if Tail d then some 4 else some 0 := by
  have high : ¬a.toNat ≤ 0x7F ∧ ¬a.toNat ≤ 0xC1 ∧ ¬a.toNat ≤ 0xDF ∧ ¬a.toNat ≤ 0xEF := by omega
  have at' : (a = 0xF0 ↔ a.toNat = 0xF0) ∧ (a = 0xF4 ↔ a.toNat = 0xF4) := ⟨UInt8.toNat_inj.symm,UInt8.toNat_inj.symm⟩
  unfold utf8ValidateCz
  simp only [List.getElem?_cons_zero, List.getElem?_cons_succ, Option.bind_eq_bind, Option.bind_some]
  simp only [UInt8.le_iff_toNat_le, UInt8.reduceToNat, high, four, if_true, if_false]
  simp only [UInt8.lt_iff_toNat_lt, UInt8.reduceToNat, continuation, at', ite_or, ne_eq, ite_not]

theorem checkFar (far : 0xF5 ≤ a.toNat) : utf8ValidateCz (a::s) = some 0 := by
  have high : ¬a.toNat ≤ 0x7F ∧ ¬a.toNat ≤ 0xC1 ∧ ¬a.toNat ≤ 0xDF ∧ ¬a.toNat ≤ 0xEF ∧ ¬a.toNat ≤ 0xF4 := by omega
  simp [utf8ValidateCz, UInt8.le_iff_toNat_le, high]

end Classes

inductive Formed : Nat → Text → Prop where
  | one {a : UInt8} (first : a.toNat ≤ 0x7F) : Formed a.toNat [a]
  | two {a b : UInt8} (first : 0xC2 ≤ a.toNat ∧ a.toNat ≤ 0xDF) (second : Tail b) :
    Formed (a.toNat % 32*64 + b.toNat % 64) [a,b]
  | three {a b c : UInt8} (first : 0xE0 ≤ a.toNat ∧ a.toNat ≤ 0xEF) (second : Tail b)
    (third : Tail c) (long : ¬(a.toNat = 0xE0 ∧ b.toNat < 0xA0))
    (whole : ¬(a.toNat = 0xED ∧ 0x9F < b.toNat)) :
    Formed (a.toNat % 16*4096 + b.toNat % 64*64 + c.toNat % 64) [a,b,c]
  | four {a b c d : UInt8} (first : 0xF0 ≤ a.toNat ∧ a.toNat ≤ 0xF4) (second : Tail b)
    (third : Tail c) (fourth : Tail d)
    (long : ¬(a.toNat = 0xF0 ∧ b.toNat < 0x90)) (beyond : ¬(a.toNat = 0xF4 ∧ 0x8F < b.toNat)) :
    Formed (a.toNat % 8*262144 + b.toNat % 64*4096 + c.toNat % 64*64 + d.toNat % 64) [a,b,c,d]

theorem formedEncode (c : Char) : Formed c.val.toNat (String.utf8EncodeChar c) := by
  have range := scalar c
  have known : ∀ n, n < 256 → (UInt8.ofNat n).toNat = n := fun n small => UInt8.toNat_ofNat_of_lt' small
  generalize value : c.val.toNat = v at range
  have low := known (v % 64 + 0x80) (by omega)
  have middle := known (v/64 % 64 + 0x80) (by omega)
  have high := known (v/4096 % 64 + 0x80) (by omega)
  unfold String.utf8EncodeChar
  simp only [value]
  split
  case isTrue one =>
    have first := known v (by omega)
    have formed := @Formed.one (UInt8.ofNat v) (by omega)
    rwa [first] at formed
  case isFalse one =>
    split
    case isTrue two =>
      have first := known (v/64 % 32 + 0xC0) (by omega)
      have formed := @Formed.two (UInt8.ofNat (v/64 % 32 + 0xC0)) (UInt8.ofNat (v % 64 + 0x80)) (by omega) (by omega)
      have same : (v/64 % 32 + 0xC0) % 32*64 + (v % 64 + 0x80) % 64 = v := by omega
      rwa [first, low, same] at formed
    case isFalse two =>
      split
      case isTrue three =>
        have first := known (v/4096 % 16 + 0xE0) (by omega)
        have formed := @Formed.three (UInt8.ofNat (v/4096 % 16 + 0xE0)) (UInt8.ofNat (v/64 % 64 + 0x80))
          (UInt8.ofNat (v % 64 + 0x80)) (by omega) (by omega) (by omega) (by omega) (by omega)
        have same : (v/4096 % 16 + 0xE0) % 16*4096 + (v/64 % 64 + 0x80) % 64*64 + (v % 64 + 0x80) % 64 = v := by
          omega
        rwa [first, middle, low, same] at formed
      case isFalse three =>
        have first := known (v/262144 % 8 + 0xF0) (by omega)
        have formed := @Formed.four (UInt8.ofNat (v/262144 % 8 + 0xF0)) (UInt8.ofNat (v/4096 % 64 + 0x80))
          (UInt8.ofNat (v/64 % 64 + 0x80)) (UInt8.ofNat (v % 64 + 0x80)) (by omega) (by omega) (by omega) (by omega)
          (by omega) (by omega)
        have same : (v/262144 % 8 + 0xF0) % 8*262144 + (v/4096 % 64 + 0x80) % 64*4096 +
            (v/64 % 64 + 0x80) % 64*64 + (v % 64 + 0x80) % 64 = v := by omega
        rwa [first, high, middle, low, same] at formed

theorem formedValid {v : Nat} {bytes : Text} (formed : Formed v bytes) : v.isValidChar := by
  cases formed with
  | one first => exact Or.inl (by omega)
  | two first second => exact Or.inl (by omega)
  | @three a b c first second third long whole =>
    rcases Nat.lt_or_ge a.toNat 0xED with below | above
    · exact Or.inl (by omega)
    · rcases Nat.lt_or_ge 0xED a.toNat with higher | same
      · exact Or.inr ⟨by omega,by omega⟩
      · exact Or.inl (by omega)
  | four first second third fourth long beyond => exact Or.inr ⟨by omega,by omega⟩

theorem encodeFormed {v : Nat} {bytes : Text} (formed : Formed v bytes) :
    ∃ c : Char, c.val.toNat = v ∧ String.utf8EncodeChar c = bytes := by
  have valid := formedValid formed
  have byte : ∀ (n : Nat) (a : UInt8), n = a.toNat → UInt8.ofNat n = a := fun n a same => by
    rw [same, UInt8.ofNat_toNat]
  obtain ⟨char, value⟩ : ∃ char : Char, char.val.toNat = v := ⟨Char.ofNatAux v valid,rfl⟩
  refine ⟨char,value,?_⟩
  unfold String.utf8EncodeChar
  simp only [value]
  cases formed with
  | one first => rw [if_pos first, UInt8.ofNat_toNat]
  | @two a b first second =>
    rw [if_neg (by omega), if_pos (by omega), byte _ a (by omega), byte _ b (by omega)]
  | @three a b c first second third long whole =>
    rw [if_neg (by omega), if_neg (by omega), if_pos (by omega), byte _ a (by omega), byte _ b (by omega),
      byte _ c (by omega)]
  | @four a b c d first second third fourth long beyond =>
    rw [if_neg (by omega), if_neg (by omega), if_neg (by omega), byte _ a (by omega), byte _ b (by omega),
      byte _ c (by omega), byte _ d (by omega)]

theorem validateEncoded (c : Char) (later : Text) :
    utf8ValidateCz (String.utf8EncodeChar c ++ later) = some (String.utf8EncodeChar c).length := by
  have formed := formedEncode c
  generalize c.val.toNat = v at formed
  generalize String.utf8EncodeChar c = bytes at formed
  cases formed with
  | one first => exact checkOne later first
  | two first second => simp [checkTwo _ first, second]
  | @three a b c first second third long whole =>
    have none : ¬(a.toNat = 0xE0 ∧ b.toNat < 0xA0 ∨ a.toNat = 0xED ∧ 0x9F < b.toNat ∨ ¬Tail b) := by omega
    rw [List.cons_append, checkThree _ first]
    simp only [List.cons_append, List.getElem?_cons_zero, List.getElem?_cons_succ, Option.bind_some]
    rw [if_neg none, if_pos third]
    rfl
  | @four a b c d first second third fourth long beyond =>
    have none : ¬(a.toNat = 0xF0 ∧ b.toNat < 0x90 ∨ a.toNat = 0xF4 ∧ 0x8F < b.toNat ∨ ¬Tail b) := by omega
    rw [List.cons_append, checkFour _ first]
    simp only [List.cons_append, List.getElem?_cons_zero, List.getElem?_cons_succ, Option.bind_some]
    rw [if_neg none, if_neg (not_not.mpr third), if_pos fourth]
    rfl

theorem validateSplit {s : Text} {len : Nat} (checked : utf8ValidateCz s = some len) (valid : len ≠ 0) :
    ∃ v bytes later, Formed v bytes ∧ s = bytes ++ later ∧ bytes.length = len := by
  have invalid : ∀ {P : Prop}, some 0 = some len → P := fun none => absurd (Option.some.inj none).symm valid
  cases s with
  | nil => cases checked
  | cons a s =>
    -- The class of the first byte says how many follow, and each has its own bounds.
    rcases classes a with one | stray | two | three | four | far
    · rw [checkOne s one] at checked
      cases checked
      exact ⟨_,[a],s,.one one,rfl,rfl⟩
    · rw [checkStray s stray] at checked
      exact invalid checked
    · rw [checkTwo s two] at checked
      cases s with
      | nil => cases checked
      | cons b s =>
        simp only [List.getElem?_cons_zero, Option.bind_some] at checked
        split at checked
        case isTrue second =>
          cases checked
          exact ⟨_,[a,b],s,.two two second,rfl,rfl⟩
        case isFalse => exact invalid checked
    · rw [checkThree s three] at checked
      cases s with
      | nil => cases checked
      | cons b s =>
        simp only [List.getElem?_cons_zero, List.getElem?_cons_succ, Option.bind_some] at checked
        split at checked
        case isTrue => exact invalid checked
        case isFalse second =>
        cases s with
        | nil => cases checked
        | cons c s =>
          simp only [List.getElem?_cons_zero, Option.bind_some] at checked
          split at checked
          case isFalse => exact invalid checked
          case isTrue third =>
            cases checked
            exact ⟨_,[a,b,c],s,.three three (by omega) third (by omega) (by omega),rfl,rfl⟩
    · rw [checkFour s four] at checked
      cases s with
      | nil => cases checked
      | cons b s =>
        simp only [List.getElem?_cons_zero, List.getElem?_cons_succ, Option.bind_some] at checked
        split at checked
        case isTrue => exact invalid checked
        case isFalse second =>
        cases s with
        | nil => cases checked
        | cons c s =>
          simp only [List.getElem?_cons_zero, List.getElem?_cons_succ, Option.bind_some] at checked
          split at checked
          case isTrue => exact invalid checked
          case isFalse third =>
          cases s with
          | nil => cases checked
          | cons d s =>
            simp only [List.getElem?_cons_zero, Option.bind_some] at checked
            split at checked
            case isFalse => exact invalid checked
            case isTrue fourth =>
              cases checked
              exact ⟨_,[a,b,c,d],s,.four four (by omega) (not_not.mp third) fourth (by omega) (by omega),rfl,rfl⟩
    · rw [checkFar s far] at checked
      exact invalid checked

theorem validateInside {s : Text} (inside : 0 ∈ s) : ∃ len, utf8ValidateCz s = some len := by
  have next : ∀ {a : UInt8} {s : Text}, 0 ∈ a::s → 0 < a.toNat → ∃ b s', s = b::s' ∧ 0 ∈ b::s' := by
    intro a s inside positive
    have later : 0 ∈ s := memOfCons inside fun same => by
      rw [same] at positive
      exact absurd positive (by decide)
    cases s with
    | nil => cases later
    | cons b s => exact ⟨b,s,rfl,later⟩
  cases s with
  | nil => cases inside
  | cons a s =>
    rcases classes a with one | stray | two | three | four | far
    · exact ⟨1,checkOne s one⟩
    · exact ⟨0,checkStray s stray⟩
    · obtain ⟨b, s, rfl, inside₁⟩ := next inside (by omega)
      rw [checkTwo _ two, List.getElem?_cons_zero, Option.bind_some]
      split <;> exact ⟨_,rfl⟩
    · obtain ⟨b, s, rfl, inside₁⟩ := next inside (by omega)
      rw [checkThree _ three, List.getElem?_cons_zero, Option.bind_some]
      split
      case isTrue => exact ⟨0,rfl⟩
      case isFalse second =>
        obtain ⟨c, s, rfl, _⟩ := next inside₁ (by omega)
        simp only [List.getElem?_cons_zero, List.getElem?_cons_succ, Option.bind_some]
        split <;> exact ⟨_,rfl⟩
    · obtain ⟨b, s, rfl, inside₁⟩ := next inside (by omega)
      rw [checkFour _ four, List.getElem?_cons_zero, Option.bind_some]
      split
      case isTrue => exact ⟨0,rfl⟩
      case isFalse second =>
        obtain ⟨c, s, rfl, inside₂⟩ := next inside₁ (by omega)
        simp only [List.getElem?_cons_zero, List.getElem?_cons_succ, Option.bind_some]
        split
        case isTrue => exact ⟨0,rfl⟩
        case isFalse third =>
          obtain ⟨d, s, rfl, _⟩ := next inside₂ (by omega)
          simp only [List.getElem?_cons_zero, Option.bind_some]
          split <;> exact ⟨_,rfl⟩
    · exact ⟨0,checkFar s far⟩

theorem validateReads {s : Text} {len : Nat} (checked : utf8ValidateCz s = some len) (valid : len ≠ 0) :
    ∃ c later, s = String.utf8EncodeChar c ++ later ∧ (String.utf8EncodeChar c).length = len := by
  obtain ⟨v, bytes, later, formed, rfl, length⟩ := validateSplit checked valid
  obtain ⟨c, _, rfl⟩ := encodeFormed formed
  exact ⟨c,later,rfl,length⟩

theorem encodedPrefix {c d : Char} {later later' : Text}
    (same : String.utf8EncodeChar c ++ later = String.utf8EncodeChar d ++ later') :
    String.utf8EncodeChar c = String.utf8EncodeChar d ∧ later = later' := by
  have length := validateEncoded c later
  rw [same, validateEncoded d later'] at length
  exact List.append_inj same (Option.some.inj length).symm

theorem encodedNotEmpty (c : Char) : 0 < (String.utf8EncodeChar c).length :=
  List.length_pos_iff.mpr String.utf8EncodeChar_ne_nil

theorem encodeLow {c : Char} (low : c.val.toNat ≤ 0x7F) : String.utf8EncodeChar c = [UInt8.ofNat c.val.toNat] := by
  unfold String.utf8EncodeChar
  exact if_pos low

theorem encodeHigh {c : Char} (high : 0x7F < c.val.toNat) : ∀ a ∈ String.utf8EncodeChar c, 0x80 ≤ a.toNat := by
  have formed := formedEncode c
  generalize c.val.toNat = v at formed high
  generalize String.utf8EncodeChar c = bytes at formed
  cases formed with
  | one first => omega
  | two first second =>
    intro a member
    simp only [List.mem_cons, List.not_mem_nil, or_false] at member
    rcases member with rfl | rfl <;> omega
  | three first second third _ _ =>
    intro a member
    simp only [List.mem_cons, List.not_mem_nil, or_false] at member
    rcases member with rfl | rfl | rfl <;> omega
  | four first second third fourth _ _ =>
    intro a member
    simp only [List.mem_cons, List.not_mem_nil, or_false] at member
    rcases member with rfl | rfl | rfl | rfl <;> omega

theorem lowEncoded {c : Char} {a : UInt8} (inside : a ∈ String.utf8EncodeChar c) (low : a.toNat ≤ 0x7F) :
    c.val.toNat = a.toNat := by
  rcases Nat.lt_or_ge 0x7F c.val.toNat with high | below
  · have := encodeHigh high a inside
    omega
  · have small : c.val.toNat < 256 := by omega
    rw [encodeLow below, List.mem_singleton, ← UInt8.toNat_inj, UInt8.toNat_ofNat_of_lt' small] at inside
    exact inside.symm

theorem zeroNotEncoded {c : Char} (other : c.val.toNat ≠ 0) : 0 ∉ String.utf8EncodeChar c := fun inside =>
  other (lowEncoded inside (by decide))

theorem encodeCons (c : Char) (text : List Char) : encode (c::text) = String.utf8EncodeChar c ++ encode text := rfl

theorem encodeApart {chars : List Char} (apart : ∀ c ∈ chars, c.val.toNat ≠ 0) : 0 ∉ encode chars := by
  intro inside
  obtain ⟨c, member, zero⟩ := List.mem_flatMap.mp inside
  exact zeroNotEncoded (apart c member) zero

theorem encodeLength (chars : List Char) : chars.length ≤ (encode chars).length := by
  induction chars with
  | nil => exact Nat.le_refl 0
  | cons c chars ih =>
    have := encodedNotEmpty c
    rw [encodeCons, List.length_append, List.length_cons]
    omega

theorem closedSplit {bytes later text : Text} (same : bytes ++ later = text ++ [0]) (apart : 0 ∉ bytes) :
    ∃ text', later = text' ++ [0] ∧ text = bytes ++ text' := by
  rcases List.append_eq_append_iff.mp same with ⟨text', rfl, rest⟩ | ⟨tail, split, rest⟩
  · exact ⟨text',rest,rfl⟩
  · cases tail with
    | nil =>
      rw [List.append_nil] at split
      rw [List.nil_append] at rest
      exact ⟨[],rest.symm,by rw [split, List.append_nil]⟩
    | cons c tail =>
      rw [List.cons_append, List.cons.injEq] at rest
      exact absurd (by rw [split, ← rest.1]; simp) apart

theorem utf8ValidateFromExact {passes : Nat} {text : Text} (apart : 0 ∉ text) (enough : text.length < passes) :
    ∃ answer, utf8ValidateFrom passes (text ++ [0]) = some answer ∧
      (answer = true ↔ ∃ chars, text = encode chars) := by
  induction passes generalizing text with
  | zero => omega
  | succ passes ih =>
    cases text with
    | nil => exact ⟨true,rfl,by simp; exact ⟨[],rfl⟩⟩
    | cons a text =>
      have first : a ≠ 0 := fun same => apart (by simp [same])
      have inside : 0 ∈ (a::text) ++ [0] := by simp
      obtain ⟨len, checked⟩ := validateInside inside
      have step : utf8ValidateFrom (passes+1) ((a::text) ++ [0]) =
          if len = 0 then some false else utf8ValidateFrom passes (((a::text) ++ [0]).drop len) := by
        rw [utf8ValidateFrom, checked]
        exact if_neg first
      rw [step]
      split
      case isTrue none =>
        refine ⟨false,rfl,by simp,fun ⟨chars, same⟩ => ?_⟩
        cases chars with
        | nil => cases same
        | cons c chars =>
          rw [same, encodeCons, List.append_assoc, validateEncoded, Option.some.injEq] at checked
          have := encodedNotEmpty c
          omega
      case isFalse some =>
        obtain ⟨c, later, same, length⟩ := validateReads checked some
        have positive : c.val.toNat ≠ 0 := fun zero => by
          rw [encodeLow (by omega), zero] at same
          exact first (List.cons.inj same).1
        obtain ⟨text', rfl, split⟩ := closedSplit same.symm (zeroNotEncoded positive)
        have shorter : text'.length < passes := by
          have := congrArg List.length split
          have := encodedNotEmpty c
          simp at *
          omega
        have apart' : 0 ∉ text' := fun inside => apart (by rw [split]; exact List.mem_append_right _ inside)
        obtain ⟨answer, found, exact⟩ := ih apart' shorter
        refine ⟨answer,by rw [same, ← length, List.drop_left, found],?_⟩
        rw [exact, split]
        constructor
        · intro ⟨chars, same⟩
          exact ⟨c::chars,by rw [same, encodeCons]⟩
        · intro ⟨chars, same⟩
          cases chars with
          | nil => exact absurd (List.append_eq_nil_iff.mp same).1 String.utf8EncodeChar_ne_nil
          | cons d chars => exact ⟨chars,(encodedPrefix same).2⟩

theorem encodeValid (text : Text) : (∃ chars, text = encode chars) ↔ text.toByteArray.IsValidUTF8 := by
  constructor
  · intro ⟨chars, same⟩
    exact .intro chars (by rw [same]; rfl)
  · intro ⟨chars, same⟩
    exact ⟨chars,List.toByteArray_inj.mp same⟩

theorem utf8ValidateEncoded {text : Text} (apart : 0 ∉ text) :
    utf8Validate (text ++ [0]) = some true ↔ ∃ chars, text = encode chars := by
  have enough : text.length < (text ++ [0]).length := by simp
  obtain ⟨answer, found, exact⟩ := utf8ValidateFromExact apart enough
  rw [← exact, utf8Validate, found, Option.some.injEq]

/- A surrogate on its own. -/
example : utf8Validate ([0xED,0xA0,0x80] ++ [0]) = some false := by decide

/- Accepted are exactly the strings in UTF-8, and nothing behind the closing zero is read. -/
theorem utf8ValidateExact (text : Text) (apart : 0 ∉ text) :
    ∃ answer, utf8Validate (text ++ [0]) = some answer ∧ (answer = true ↔ text.toByteArray.IsValidUTF8) := by
  rw [← encodeValid]
  have enough : text.length < (text ++ [0]).length := by simp
  exact utf8ValidateFromExact apart enough

theorem utf8ValidateExactAccent :
    ∃ answer, utf8Validate ([0xC3,0xA9] ++ [0]) = some answer ∧
      (answer = true ↔ (List.toByteArray [0xC3,0xA9]).IsValidUTF8) :=
  utf8ValidateExact [0xC3,0xA9] (by decide)

theorem lowSix (n : UInt8) : (n.toUInt32 &&& 0x3F).toNat = n.toNat % 64 := by
  rw [UInt32.toNat_and, UInt8.toNat_toUInt32]
  exact lowBits n.toNat 6

theorem raised {n k : UInt32} (m : Nat) (value : n.toNat = m) (short : k.toNat < 32) (fits : m*2^k.toNat < 2^32) :
    (n <<< k).toNat = m*2^k.toNat := by
  rw [UInt32.toNat_shiftLeft, value, Nat.mod_eq_of_lt short, Nat.shiftLeft_eq, Nat.mod_eq_of_lt fits]

theorem joined {n m : UInt32} (high low k : Nat) (left : n.toNat = high*2^k) (right : m.toNat = low) (fits : low < 2^k) :
    (n ||| m).toNat = high*2^k + low := by
  rw [UInt32.toNat_or, left, right, beside high low k fits]

theorem joinTwo (a b : UInt8) :
    ((a.toUInt32 &&& 0x1F) <<< 6 ||| (b.toUInt32 &&& 0x3F)).toNat = a.toNat % 32*64 + b.toNat % 64 := by
  have high : (a.toUInt32 &&& 0x1F).toNat = a.toNat % 32 := by
    rw [UInt32.toNat_and, UInt8.toNat_toUInt32]
    exact lowBits a.toNat 5
  exact joined _ _ 6 (raised _ high (by decide) (by simp; omega)) (lowSix b) (by omega)

theorem joinThree (a b c : UInt8) :
    ((a.toUInt32 &&& 0xF) <<< 12 ||| (b.toUInt32 &&& 0x3F) <<< 6 ||| (c.toUInt32 &&& 0x3F)).toNat =
      a.toNat % 16*4096 + b.toNat % 64*64 + c.toNat % 64 := by
  have high : (a.toUInt32 &&& 0xF).toNat = a.toNat % 16 := by
    rw [UInt32.toNat_and, UInt8.toNat_toUInt32]
    exact lowBits a.toNat 4
  have first := joined _ _ 12 (raised _ high (k := 12) (by decide) (by simp; omega))
    (raised _ (lowSix b) (k := 6) (by decide) (by simp; omega)) (by simp; omega)
  have both := joined (a.toNat % 16*64 + b.toNat % 64) _ 6 (first.trans (by simp; omega)) (lowSix c) (by omega)
  rw [both]
  omega

theorem joinFour (a b c d : UInt8) :
    ((a.toUInt32 &&& 0x7) <<< 18 ||| (b.toUInt32 &&& 0x3F) <<< 12 ||| (c.toUInt32 &&& 0x3F) <<< 6 |||
      (d.toUInt32 &&& 0x3F)).toNat =
      a.toNat % 8*262144 + b.toNat % 64*4096 + c.toNat % 64*64 + d.toNat % 64 := by
  have high : (a.toUInt32 &&& 0x7).toNat = a.toNat % 8 := by
    rw [UInt32.toNat_and, UInt8.toNat_toUInt32]
    exact lowBits a.toNat 3
  have first := joined _ _ 18 (raised _ high (k := 18) (by decide) (by simp; omega))
    (raised _ (lowSix b) (k := 12) (by decide) (by simp; omega)) (by simp; omega)
  have second := joined (a.toNat % 8*64 + b.toNat % 64) _ 12 (first.trans (by simp; omega))
    (raised _ (lowSix c) (k := 6) (by decide) (by simp; omega)) (by simp; omega)
  have all := joined (a.toNat % 8*4096 + b.toNat % 64*64 + c.toNat % 64) _ 6 (second.trans (by simp; omega)) (lowSix d)
    (by omega)
  rw [all]
  omega

theorem utf8ReadCharEncoded (c : Char) (later : Text) :
    utf8ReadChar (String.utf8EncodeChar c ++ later) = some (c.val,(String.utf8EncodeChar c).length) := by
  have checked := validateEncoded c later
  have formed := formedEncode c
  have value : ∀ code : UInt32, code.toNat = c.val.toNat ↔ code = c.val := fun _ => UInt32.toNat_inj
  generalize c.val = u at formed value
  generalize read : u.toNat = v at formed value
  generalize String.utf8EncodeChar c = bytes at formed checked
  unfold utf8ReadChar
  rw [checked, Option.bind_eq_bind, Option.bind_some]
  cases formed with
  | @one a first =>
    have one : a ≤ 0x7F := UInt8.le_iff_toNat_le.mpr first
    simp [one, ← value]
  | @two a b first second =>
    have two : ¬a ≤ 0x7F ∧ a ≤ 0xDF := by
      simp only [UInt8.le_iff_toNat_le, UInt8.reduceToNat]
      omega
    have code := value ((a.toUInt32 &&& 0x1F) <<< 6 ||| (b.toUInt32 &&& 0x3F))
    rw [joinTwo] at code
    simp [two, code.mp rfl]
  | @three a b c first second third _ _ =>
    have three : ¬a ≤ 0x7F ∧ ¬a ≤ 0xDF ∧ a ≤ 0xEF := by
      simp only [UInt8.le_iff_toNat_le, UInt8.reduceToNat]
      omega
    have code := value ((a.toUInt32 &&& 0xF) <<< 12 ||| (b.toUInt32 &&& 0x3F) <<< 6 ||| (c.toUInt32 &&& 0x3F))
    rw [joinThree] at code
    simp [three, code.mp rfl]
  | @four a b c d first second third fourth _ _ =>
    have four : ¬a ≤ 0x7F ∧ ¬a ≤ 0xDF ∧ ¬a ≤ 0xEF := by
      simp only [UInt8.le_iff_toNat_le, UInt8.reduceToNat]
      omega
    have code := value ((a.toUInt32 &&& 0x7) <<< 18 ||| (b.toUInt32 &&& 0x3F) <<< 12 |||
      (c.toUInt32 &&& 0x3F) <<< 6 ||| (d.toUInt32 &&& 0x3F))
    rw [joinFour] at code
    simp [four, code.mp rfl]

example : utf8ReadChar ([0xF0,0x9F,0x98,0x80] ++ [0]) = some (0x1F600,4) := by decide

theorem utf8WriteCharSome {unicode : UInt32} {bytes : Text} (written : utf8WriteChar unicode = some bytes) :
    ∃ c : Char, c.val = unicode ∧ bytes = String.utf8EncodeChar c := by
  have valid : unicode.isValidChar := by
    unfold utf8WriteChar at written
    split at written
    case isFalse => cases written
    case isTrue allowed =>
      simp only [ge_iff_le, UInt32.le_iff_toNat_le, UInt32.reduceToNat] at allowed
      rw [UInt32.isValidChar, Nat.isValidChar]
      omega
  have same := utf8WriteCharIs ⟨unicode,valid⟩
  rw [written, Option.some.injEq] at same
  exact ⟨⟨unicode,valid⟩,rfl,same⟩

/- A character that is read is written with the bytes that it was read from, and one that is
written is read again from its bytes. -/
theorem utf8CharsInverse (s : Text) (unicode : UInt32) (len : Nat) :
    utf8ReadChar s = some (unicode,len) ↔ ∃ bytes later, utf8WriteChar unicode = some bytes ∧ s = bytes ++ later ∧
      bytes.length = len := by
  constructor
  · intro read
    have checked : ∃ n, utf8ValidateCz s = some n ∧ n ≠ 0 := by
      unfold utf8ReadChar at read
      obtain ⟨n, checked, read⟩ := Option.bind_eq_some_iff.mp read
      split at read
      case isTrue => cases read
      case isFalse valid => exact ⟨n,checked,valid⟩
    obtain ⟨n, checked, valid⟩ := checked
    obtain ⟨c, later, rfl, _⟩ := validateReads checked valid
    rw [utf8ReadCharEncoded] at read
    cases read
    exact ⟨_,later,utf8WriteCharIs c,rfl,rfl⟩
  · intro ⟨bytes, later, written, same, length⟩
    obtain ⟨c, rfl, rfl⟩ := utf8WriteCharSome written
    rw [same, utf8ReadCharEncoded, length]

theorem toSurrogatePairIs {unicode : UInt32} (high : 0x10000 ≤ unicode.toNat) (last : unicode.toNat ≤ 0x10FFFF) :
    ∃ uc lc, toSurrogatePair unicode = some (uc,lc) ∧ uc.toNat = 0xD800 + (unicode.toNat - 0x10000)/1024 ∧
      lc.toNat = 0xDC00 + (unicode.toNat - 0x10000) % 1024 := by
  have inside : unicode ≥ 0x10000 ∧ unicode ≤ 0x10FFFF := by
    simp only [ge_iff_le, UInt32.le_iff_toNat_le, UInt32.reduceToNat]
    omega
  have less : (unicode - 0x10000).toNat = unicode.toNat - 0x10000 := UInt32.toNat_sub_of_le _ _ inside.1
  have mark : ∀ n m : UInt32, ∀ high, m.toNat = high*2^10 → high*2^10 < 0x10000 - 1024 →
      ((n &&& 0x3FF) ||| m).toUInt16.toNat = m.toNat + n.toNat % 1024 := fun n m high value small => by
    have low : (n &&& 0x3FF).toNat = n.toNat % 1024 := (UInt32.toNat_and n 0x3FF).trans (lowBits n.toNat 10)
    rw [UInt32.toNat_toUInt16, UInt32.or_comm, joined high _ 10 value low (by omega), ← value]
    omega
  have shifted : ((unicode - 0x10000) >>> 10).toNat = (unicode.toNat - 0x10000)/1024 := by
    rw [UInt32.toNat_shiftRight, less, Nat.shiftRight_eq_div_pow]
    rfl
  refine ⟨_,_,if_pos inside,?_,?_⟩
  · rw [mark _ 0xD800 54 rfl (by decide), shifted]
    change 0xD800 + _ = _
    omega
  · rw [mark _ 0xDC00 55 rfl (by decide), less]
    rfl

theorem fromSurrogatePairIs {uc lc : UInt16} (first : 0xD800 ≤ uc.toNat ∧ uc.toNat ≤ 0xDBFF)
    (second : 0xDC00 ≤ lc.toNat ∧ lc.toNat ≤ 0xDFFF) : ∃ unicode, fromSurrogatePair uc lc = some unicode ∧
      unicode.toNat = 0x10000 + (uc.toNat - 0xD800)*1024 + (lc.toNat - 0xDC00) := by
  have inside : uc ≥ 0xD800 ∧ uc ≤ 0xDBFF ∧ lc ≥ 0xDC00 ∧ lc ≤ 0xDFFF := by
    simp only [ge_iff_le, UInt16.le_iff_toNat_le, UInt16.reduceToNat]
    omega
  have high : (uc.toUInt32 &&& 0x3FF).toNat = uc.toNat % 1024 := by
    rw [UInt32.toNat_and, UInt16.toNat_toUInt32]
    exact lowBits uc.toNat 10
  have low : (lc &&& 0x3FF).toUInt32.toNat = lc.toNat % 1024 := by
    rw [UInt16.toNat_toUInt32, UInt16.toNat_and]
    exact lowBits lc.toNat 10
  have both := joined _ _ 10 (raised _ high (k := 10) (by decide) (by simp; omega)) low (by omega)
  refine ⟨_,if_pos inside,?_⟩
  rw [UInt32.toNat_add, both]
  change (0x10000 + _) % 2^32 = _
  omega

theorem fromSurrogatePairSome {uc lc : UInt16} {unicode : UInt32} (paired : fromSurrogatePair uc lc = some unicode) :
    (0xD800 ≤ uc.toNat ∧ uc.toNat ≤ 0xDBFF) ∧ 0xDC00 ≤ lc.toNat ∧ lc.toNat ≤ 0xDFFF := by
  unfold fromSurrogatePair at paired
  split at paired
  case isFalse => cases paired
  case isTrue inside =>
    simp only [ge_iff_le, UInt16.le_iff_toNat_le, UInt16.reduceToNat] at inside
    omega

theorem toSurrogatePairSome {unicode : UInt32} {uc lc : UInt16} (made : toSurrogatePair unicode = some (uc,lc)) :
    0x10000 ≤ unicode.toNat ∧ unicode.toNat ≤ 0x10FFFF ∧ uc.toNat = 0xD800 + (unicode.toNat - 0x10000)/1024 ∧
      lc.toNat = 0xDC00 + (unicode.toNat - 0x10000) % 1024 := by
  have inside : unicode ≥ 0x10000 ∧ unicode ≤ 0x10FFFF := by
    unfold toSurrogatePair at made
    split at made
    case isTrue inside => exact inside
    case isFalse => cases made
  simp only [ge_iff_le, UInt32.le_iff_toNat_le, UInt32.reduceToNat] at inside
  obtain ⟨uc', lc', same, high, low⟩ := toSurrogatePairIs inside.1 inside.2
  rw [made] at same
  cases same
  exact ⟨inside.1,inside.2,high,low⟩

theorem surrogatePairsExact (unicode : UInt32) (uc lc : UInt16) :
    fromSurrogatePair uc lc = some unicode ↔ toSurrogatePair unicode = some (uc,lc) := by
  constructor
  · intro paired
    obtain ⟨first, second⟩ := fromSurrogatePairSome paired
    obtain ⟨code, same, value⟩ := fromSurrogatePairIs first second
    rw [paired, Option.some.injEq] at same
    subst same
    obtain ⟨uc', lc', made, high, low⟩ := toSurrogatePairIs (by omega) (by omega : unicode.toNat ≤ 0x10FFFF)
    have sameHigh : uc' = uc := UInt16.toNat_inj.mp (by omega)
    have sameLow : lc' = lc := UInt16.toNat_inj.mp (by omega)
    rw [made, sameHigh, sameLow]
  · intro made
    obtain ⟨from', upTo, high, low⟩ := toSurrogatePairSome made
    obtain ⟨code, paired, value⟩ := @fromSurrogatePairIs uc lc (by omega) (by omega)
    have same : code = unicode := UInt32.toNat_inj.mp (by omega)
    rw [paired, same]

theorem hexDigitHex : ∀ digit < 16, hexDigit (hex (UInt16.ofNat digit)) = some (UInt16.ofNat digit) := by decide

theorem hexDigitSmall {c : UInt8} {digit : UInt16} (read : hexDigit c = some digit) : digit.toNat < 16 := by
  have all := everyByte (P := fun c => (hexDigit c).all (fun digit => digit.toNat < 16) = true) (by decide +kernel) c
  rw [read, Option.all_some] at all
  exact of_decide_eq_true all

inductive HexText : UInt16 → Text → Prop where
  | mk {a b c d : UInt8} {h i j k value : UInt16} (first : hexDigit a = some h) (second : hexDigit b = some i)
    (third : hexDigit c = some j) (fourth : hexDigit d = some k)
    (sum : value.toNat = h.toNat*4096 + i.toNat*256 + j.toNat*16 + k.toNat) : HexText value [a,b,c,d]

theorem hexStep {ret tmp : UInt16} (room : ret.toNat < 4096) (small : tmp.toNat < 16) :
    ((ret <<< 4) + tmp).toNat = ret.toNat*16 + tmp.toNat := by
  rw [UInt16.toNat_add, UInt16.toNat_shiftLeft, Nat.shiftLeft_eq]
  change (ret.toNat*16 % 2^16 + tmp.toNat) % 2^16 = _
  omega

theorem hexValue {h i j k : UInt16} (first : h.toNat < 16) (second : i.toNat < 16) (third : j.toNat < 16)
    (fourth : k.toNat < 16) : (((((((((0 : UInt16) <<< 4) + h) <<< 4) + i) <<< 4) + j) <<< 4) + k).toNat =
      h.toNat*4096 + i.toNat*256 + j.toNat*16 + k.toNat := by
  have one : (((0 : UInt16) <<< 4) + h).toNat = h.toNat := by
    rw [hexStep (by decide) first]
    simp
  have two : (((((0 : UInt16) <<< 4) + h) <<< 4) + i).toNat = h.toNat*16 + i.toNat := by
    rw [hexStep (by omega) second, one]
  have three : (((((((0 : UInt16) <<< 4) + h) <<< 4) + i) <<< 4) + j).toNat = (h.toNat*16 + i.toNat)*16 + j.toNat := by
    rw [hexStep (by omega) third, two]
  rw [hexStep (by omega) fourth, three]
  omega

theorem parseHex16Read {s rest : Text} {value : UInt16} (done : parseHex16 s = .done value rest) :
    ∃ text, s = text ++ rest ∧ HexText value text := by
  unfold parseHex16 at done
  simp only [hexDigits] at done
  obtain ⟨a, _, h, rfl, first, done⟩ := takeBindDone done
  obtain ⟨b, _, i, rfl, second, done⟩ := takeBindDone done
  obtain ⟨c, _, j, rfl, third, done⟩ := takeBindDone done
  obtain ⟨d, _, k, rfl, fourth, done⟩ := takeBindDone done
  obtain ⟨rfl, rfl⟩ := pureDone.mp done
  exact ⟨[a,b,c,d],rfl,.mk first second third fourth (hexValue (hexDigitSmall first) (hexDigitSmall second)
    (hexDigitSmall third) (hexDigitSmall fourth))⟩

theorem parseHex16Taken {value : UInt16} {text : Text} (offered : HexText value text) (rest : Text) :
    parseHex16 (text ++ rest) = .done value rest := by
  cases offered with
  | mk first second third fourth sum =>
    unfold parseHex16
    simp only [hexDigits, List.cons_append, List.nil_append]
    rw [doneBind (takeSome first _), doneBind (takeSome second _), doneBind (takeSome third _),
      doneBind (takeSome fourth _)]
    refine pureDone.mpr ⟨?_,rfl⟩
    rw [← UInt16.toNat_inj, sum]
    exact hexValue (hexDigitSmall first) (hexDigitSmall second) (hexDigitSmall third) (hexDigitSmall fourth)

/- Small letters are read, and capital ones are written. -/
example : parseHex16 [0x44,0x38,0x33,0x64,0] = .done 0xD83D [0] ∧ writeHex16 0xD83D = [0x44,0x38,0x33,0x44] := by decide

theorem parseHex16Safe {most : Nat} : Safe 0 most 4 parseHex16 := by
  have refused : hexDigit 0 = none := by decide
  have digits : ∀ n most ret, Safe 0 most n (hexDigits n ret) := by
    intro n
    induction n with
    | zero => exact fun most ret => safePure ret
    | succ n ih =>
      intro most ret
      have held : Safe 0 most (1+n) (hexDigits (n+1) ret) := safeBind (safeTake refused) fun tmp => ih _ _
      rwa [Nat.add_comm 1 n] at held
  exact digits 4 most 0

theorem hexTextWritten (val : UInt16) : HexText val (writeHex16 val) := by
  have low : ∀ n : UInt16, (n &&& 0xF).toNat = n.toNat % 16 := fun n =>
    (UInt16.toNat_and n 0xF).trans (lowBits n.toNat 4)
  have digit : ∀ n : UInt16, hexDigit (hex (n &&& 0xF)) = some (n &&& 0xF) := fun n => by
    have held := hexDigitHex (n &&& 0xF).toNat (by rw [low]; omega)
    rwa [UInt16.ofNat_toNat] at held
  have by12 : (val >>> 12).toNat = val.toNat/4096 := UInt16.toNat_shiftRight val 12 |>.trans (Nat.shiftRight_eq_div_pow _ _)
  have by8 : (val >>> 8).toNat = val.toNat/256 := UInt16.toNat_shiftRight val 8 |>.trans (Nat.shiftRight_eq_div_pow _ _)
  have by4 : (val >>> 4).toNat = val.toNat/16 := UInt16.toNat_shiftRight val 4 |>.trans (Nat.shiftRight_eq_div_pow _ _)
  have last := val.toNat_lt
  refine .mk (digit _) (digit _) (digit _) (digit _) ?_
  rw [low, low, low, low, by12, by8, by4]
  omega

end PennDaq.Utf8
