import Mathlib.Data.BitVec
import Mathlib.Data.List.Basic

/-! Strings of C without their closing zero, and what the library functions on them
compute: `strncmp`, `strtok` on blanks, `atoi` and `strtoul` in base 16. -/
namespace Lib.CString

abbrev Text := List Char

def sameStart (n : Nat) (a b : Text) : Bool := a.take n == b.take n

/- The words that `strtok` gives in turn: what stands between the blanks. -/
def wordsFrom (word : Text) : Text → List Text
  | [] => if word = [] then [] else [word.reverse]
  | c::later =>
    if c = ' ' then
      if word = [] then wordsFrom [] later else word.reverse::wordsFrom [] later
    else wordsFrom (c::word) later

def words (s : Text) : List Text := wordsFrom [] s

def isSpace (c : Char) : Bool := c = ' ' || (9 ≤ c.toNat && c.toNat ≤ 13)

def digitOf (base : Nat) (c : Char) : Option Nat :=
  let value :=
    if '0' ≤ c ∧ c ≤ '9' then c.toNat - 48
    else if 'a' ≤ c ∧ c ≤ 'z' then c.toNat - 87
    else if 'A' ≤ c ∧ c ≤ 'Z' then c.toNat - 55
    else base
  if value < base then some value else none

def digits (base value : Nat) : Text → Nat
  | [] => value
  | c::later => match digitOf base c with
    | none => value
    | some digit => digits base (value*base+digit) later

def unsign (s : Text) : Bool × Text :=
  match s.dropWhile isSpace with
  | '-'::later => (true,later)
  | '+'::later => (false,later)
  | later => (false,later)

def skipHex : Text → Text
  | '0' :: 'x' :: later => later
  | '0' :: 'X' :: later => later
  | s => s

/- `strtol` stops at the ends of `long`. -/
def strtol (s : Text) : Int :=
  let (negative,number) := unsign s
  let value : Int := digits 10 0 number
  if negative then max (-2^63) (-value) else min (2^63-1) value

def atoi (s : Text) : Int := (strtol s).bmod (2^32)

/- `strtoul` takes the negative of a number behind a `-` and stops at the end of
`unsigned long`. -/
def strtoul16 (s : Text) : Nat :=
  let (negative,number) := unsign s
  let value := digits 16 0 (skipHex number)
  if 2^64 ≤ value then 2^64-1
  else if negative then (2^64-value) % 2^64 else value

def hex4 (n : BitVec 16) : Text :=
  [Nat.digitChar (n.toNat/4096 % 16),Nat.digitChar (n.toNat/256 % 16),
    Nat.digitChar (n.toNat/16 % 16),Nat.digitChar (n.toNat % 16)]

theorem hexDigit : ∀ d < 16, digitOf 16 (Nat.digitChar d) = some d ∧
    isSpace (Nat.digitChar d) = false ∧ Nat.digitChar d ∉ ['-','+','x','X'] := by
  decide

theorem unsignDigit {c : Char} {later : Text} (space : isSpace c = false) (other : c ∉ ['-','+','x','X']) :
    unsign (c::later) = (false,c::later) := by
  unfold unsign
  rw [List.dropWhile_cons_of_neg (by simp [space])]
  split
  · rename_i same; cases same; simp at other
  · rename_i same; cases same; simp at other
  · rfl

theorem skipHexDigit {c d : Char} {later : Text} (other : d ∉ ['-','+','x','X']) :
    skipHex (c::d::later) = c::d::later := by
  unfold skipHex
  split
  · rename_i same; cases same; simp at other
  · rename_i same; cases same; simp at other
  · rfl

theorem strtoulHex4 (n : BitVec 16) : strtoul16 (hex4 n) = n.toNat := by
  have word := n.isLt
  have digit (k : Nat) : n.toNat/k % 16 < 16 := Nat.mod_lt _ (by decide)
  obtain ⟨d3, space, first⟩ := hexDigit _ (digit 4096)
  obtain ⟨d2, -, second⟩ := hexDigit _ (digit 256)
  obtain ⟨d1, -, -⟩ := hexDigit _ (digit 16)
  obtain ⟨d0, -, -⟩ := hexDigit (n.toNat % 16) (Nat.mod_lt _ (by decide))
  rw [hex4, strtoul16, unsignDigit space first]
  simp only [skipHexDigit second, digits, d3, d2, d1, d0, Bool.false_eq_true, if_false]
  rw [if_neg (by omega)]
  omega

theorem hex4Injective {a b : BitVec 16} (same : hex4 a = hex4 b) : a = b := by
  have values := congrArg strtoul16 same
  rw [strtoulHex4, strtoulHex4] at values
  exact BitVec.eq_of_toNat_eq values

def toUInt32 (n : Nat) : BitVec 32 := BitVec.ofNat 32 n

end Lib.CString
