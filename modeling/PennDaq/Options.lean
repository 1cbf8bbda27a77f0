import PennDaq.Lib.CString

/-! The options of a command line: `GetInt` and its sisters in `Globals.cpp`. The
line fits into their buffers. -/
namespace PennDaq.Options
open Lib.CString

def isFlag (flag : Char) (word : Text) : Bool := word.take 2 == ['-',flag]

def valueOf (isOption : Text → Bool) : List Text → Option Text
  | [] => none
  | word::later => if isOption word then later.head? else valueOf isOption later

def getInt (input : Text) (flag : Char) (dflt : Int) : Int :=
  match valueOf (isFlag flag) (words input) with
  | none => dflt
  | some value => atoi value

def isLongFlag (flag : Text) (flagLen : Nat) : Text → Bool
  | '-'::name => sameStart flagLen name flag
  | _ => false

def getUInt (input flag : Text) (dflt : BitVec 32) (flagLen : Nat) : BitVec 32 :=
  match valueOf (isLongFlag flag flagLen) (words input) with
  | none => dflt
  | some value => toUInt32 (strtoul16 value)

def getFlag (input : Text) (flag : Char) : Bool := (words input).any (isFlag flag)

def getStringFrom (flag : Char) (result : Text) : List Text → Text
  | [] => result
  | [_] => result
  | word::value::later =>
    if isFlag flag word then getStringFrom flag value later
    else getStringFrom flag result (value::later)

def getString (input : Text) (flag : Char) (dflt : Text) : Text :=
  getStringFrom flag dflt (words input)

/- The number that `-kl` stands for among `num`: the tens go up to `num/10`, the
units up to `(num-10*tens)%10`. -/
def indexOf (num : Nat) : Text → Option Nat
  | '-'::tens::units::_ =>
    let i := tens.toNat - 48
    let j := units.toNat - 48
    if '0' ≤ tens ∧ '0' ≤ units ∧ i ≤ num/10 ∧ j ≤ (num-i*10) % 10 then some (i*10+j) else none
  | _ => none

/- What `GetMultiUInt` leaves at each index; those from `num` on lie behind the
array. -/
def getMultiUIntFrom (num : Nat) (flag : Char) (results : Nat → BitVec 32) :
    List Text → Nat → BitVec 32
  | [] => results
  | [_] => results
  | word::value::later =>
    let number := toUInt32 (strtoul16 value)
    if isFlag flag word then
      getMultiUIntFrom num flag (fun k => if k < num then number else results k) later
    else match indexOf num word with
      | some i => getMultiUIntFrom num flag (fun k => if k = i then number else results k) later
      | none => getMultiUIntFrom num flag results (value::later)

def getMultiUInt (input : Text) (num : Nat) (flag : Char) (dflt : BitVec 32) : Nat → BitVec 32 :=
  getMultiUIntFrom num flag (fun _ => dflt) (words input)

/- The options of a line with a value behind the flag and one without. -/
example : getInt "xl3_rw -c 25 -a".toList 'c' 2 = 25 ∧ getInt "xl3_rw -c".toList 'c' 2 = 2 := by
  decide

end PennDaq.Options
