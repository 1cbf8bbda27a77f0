import PennDaq.Lib.Rows
import Mathlib.Data.List.TakeWhile
import Mathlib.Data.Nat.Digits.Defs

/-! What `sprintf` makes of the formats of the tests' messages. -/
namespace PennDaq.Messages
open Lib.Buffer Lib.Rows

structure Text where
  bytes : Bytes
  noZero : 0 ∉ bytes

def Text.append (a b : Text) : Text :=
  ⟨a.bytes ++ b.bytes,fun mem => (List.mem_append.mp mem).elim a.noZero b.noZero⟩

instance : Append Text := ⟨Text.append⟩

def byteOf (c : Char) : UInt8 := c.toNat.toUInt8

def literal (s : String) : Text :=
  ⟨(s.toList.map byteOf).takeWhile (· ≠ 0),fun mem => absurd (List.mem_takeWhile_imp mem) (by decide)⟩

theorem digitByte : ∀ c : Char, c.isDigit = true → byteOf c ≠ 0 := by
  intro c digit zero
  have value := congrArg UInt8.toNat zero
  simp only [Char.isDigit, Bool.and_eq_true, decide_eq_true_eq] at digit
  obtain ⟨low, high⟩ := digit
  have low' : 48 ≤ c.toNat := low
  have high' : c.toNat ≤ 57 := high
  rw [byteOf, Nat.toUInt8, UInt8.toNat_ofNat', Nat.mod_eq_of_lt (by omega)] at value
  change c.toNat = 0 at value
  omega

def decimal (n : Nat) : Text :=
  ⟨(Nat.toDigits 10 n).map byteOf,fun mem => by
    obtain ⟨c, inside, zero⟩ := List.mem_map.mp mem
    exact digitByte c (Nat.isDigit_of_mem_toDigits (by decide) (by decide) inside) zero⟩

theorem hexByte : ∀ d < 16, byteOf (Nat.digitChar d) ≠ 0 := by decide

def hex8 (w : BitVec 32) : Text :=
  ⟨(List.range 8).reverse.map fun i => byteOf (Nat.digitChar (w.toNat/16^i % 16)),fun mem => by
    obtain ⟨i, -, zero⟩ := List.mem_map.mp mem
    exact hexByte _ (Nat.mod_lt _ (by decide)) zero⟩

def hexWords (first second third : BitVec 32) : Text :=
  hex8 first ++ literal " " ++ hex8 second ++ literal " " ++ hex8 third ++ literal "\n"

def signed (n : BitVec 32) : Text :=
  if n.toInt < 0 then literal "-" ++ decimal n.toInt.natAbs else decimal n.toInt.natAbs

theorem appendLength (a b : Text) : (a ++ b).bytes.length = a.bytes.length + b.bytes.length := List.length_append

theorem decimalLength {n e : Nat} (some' : 0 < e) (small : n < 10^e) : (decimal n).bytes.length ≤ e := by
  rw [decimal, List.length_map]
  exact Nat.toDigits_length 10 n e some' small

theorem signedLength (n : BitVec 32) : (signed n).bytes.length ≤ 11 := by
  have low := BitVec.le_toInt n
  have high := BitVec.toInt_lt (x := n)
  have digits : (decimal n.toInt.natAbs).bytes.length ≤ 10 := decimalLength (by decide) (by omega)
  unfold signed
  split
  · have sign : (literal "-").bytes.length = 1 := by decide
    rw [appendLength, sign]
    omega
  · omega

def Text.into {n : Nat} (text : Text) (row : Fin n) : Write n := ⟨row,text.bytes,text.noZero⟩

end PennDaq.Messages
