import PennDaq.Lib.Bracketed
import PennDaq.Utf8

/-! The numbers of JSON text: the strict grammar that `parse_number` walks through. -/
namespace PennDaq.JsonNumbers
open Lib.Cursor Lib.Bracketed PennDaq.Utf8

def isSpace (c : UInt8) : Bool := c = 0x09 ∨ c = 0x0A ∨ c = 0x0D ∨ c = 0x20

def isDigit (c : UInt8) : Bool := 0x30 ≤ c ∧ c ≤ 0x39

def isMinus (c : UInt8) : Bool := c = '-'.toUInt8

def isZero (c : UInt8) : Bool := c = '0'.toUInt8

def isPoint (c : UInt8) : Bool := c = '.'.toUInt8

def isExponent (c : UInt8) : Bool := c = 'E'.toUInt8 ∨ c = 'e'.toUInt8

def isSign (c : UInt8) : Bool := c = '+'.toUInt8 ∨ c = '-'.toUInt8

def digits : Reader UInt8 Unit := do
  require isDigit
  skipWhile isDigit

def integerPart : Reader UInt8 Unit := do
  if ← accept isZero then return () else digits

def fraction : Reader UInt8 Unit := do
  if ← accept isPoint then digits else return ()

def exponent : Reader UInt8 Unit := do
  if ← accept isExponent then
    let _ ← accept isSign
    digits
  else return ()

def parseNumber {ν : Type} (strtod : Text → ν) : Reader UInt8 ν := do
  let start ← here
  let _ ← accept isMinus
  integerPart
  fraction
  exponent
  return strtod start

def numberIsValid (num : CText) : Bool := parseNumber (fun _ => ()) num.memory = .done () [0]

def Digits (text : Text) : Prop := text ≠ [] ∧ ∀ c ∈ text, isDigit c = true

inductive IntegerText : Text → Prop where
  | zero : IntegerText ['0'.toUInt8]
  | digits {c text} (more : Digits (c::text)) (first : isZero c = false) : IntegerText (c::text)

inductive FractionText : Text → Prop where
  | none : FractionText []
  | some {text} (more : Digits text) : FractionText ('.'.toUInt8::text)

inductive SignText : Text → Prop where
  | none : SignText []
  | some {c} (sign : isSign c = true) : SignText [c]

inductive ExponentText : Text → Prop where
  | none : ExponentText []
  | some {c sign text} (mark : isExponent c = true) (signed : SignText sign) (more : Digits text) :
    ExponentText (c::(sign ++ text))

inductive NumberText : Text → Prop where
  | plain {integer fraction exponent} (first : IntegerText integer) (second : FractionText fraction)
    (third : ExponentText exponent) : NumberText (integer ++ (fraction ++ exponent))
  | minus {integer fraction exponent} (first : IntegerText integer) (second : FractionText fraction)
    (third : ExponentText exponent) : NumberText ('-'.toUInt8::(integer ++ (fraction ++ exponent)))

def Delimiter (c : UInt8) : Prop := isSpace c = true ∨ c = ','.toUInt8 ∨ c = ']'.toUInt8 ∨ c = '}'.toUInt8 ∨ c = 0

def AfterExponent (c : UInt8) : Prop := isDigit c = false ∧ isPoint c = false ∧ isExponent c = false

def AfterFraction (c : UInt8) : Prop := isDigit c = false ∧ isPoint c = false

def AfterInteger (c : UInt8) : Prop := isDigit c = false

theorem delimiterEnds : ∀ c, Delimiter c → AfterExponent c := everyByte (by
  unfold Delimiter AfterExponent
  decide +kernel)

theorem marksApart : ∀ c, (isPoint c = true → AfterInteger c) ∧ (isExponent c = true → AfterFraction c) ∧
    (isSign c = true → isDigit c = false) ∧ (isMinus c = true → isDigit c = false) := everyByte (by
  unfold AfterInteger AfterFraction
  decide +kernel)

section Read
variable {s rest : Text} {answer : Unit}

theorem digitsRead (done : digits s = .done answer rest) : ∃ text, s = text ++ rest ∧ Digits text := by
  unfold digits at done
  obtain ⟨_, later, one, done₁⟩ := bindDone.mp done
  obtain ⟨c, rfl, first⟩ := requireDone one
  obtain ⟨more, rfl, all, _⟩ := skipWhileDone done₁
  exact ⟨c::more,rfl,by simp,List.forall_mem_cons.mpr ⟨first,all⟩⟩

theorem integerRead (done : integerPart s = .done answer rest) : ∃ text, s = text ++ rest ∧ IntegerText text := by
  unfold integerPart at done
  obtain ⟨zero, mid, tried, done₁⟩ := bindDone.mp done
  cases zero with
  | true =>
    obtain ⟨_, rfl⟩ := pureDone.mp done₁
    obtain ⟨c, same, tested⟩ := acceptTook tried
    have zero : c = '0'.toUInt8 := of_decide_eq_true tested
    exact ⟨['0'.toUInt8],by rw [same, zero]; rfl,.zero⟩
  | false =>
    obtain ⟨kept, c, later, same, tested⟩ := acceptLeft tried
    obtain ⟨text, split, some, all⟩ := digitsRead done₁
    rw [kept] at split
    cases text with
    | nil => exact absurd rfl some
    | cons d text =>
      have first : d = c := (List.cons.inj (split.symm.trans same)).1
      exact ⟨d::text,split,.digits ⟨some,all⟩ (by rw [first, tested])⟩

theorem fractionRead (done : fraction s = .done answer rest) : ∃ text, s = text ++ rest ∧ FractionText text := by
  unfold fraction at done
  obtain ⟨pointed, mid, tried, done₁⟩ := bindDone.mp done
  cases pointed with
  | true =>
    obtain ⟨c, same, tested⟩ := acceptTook tried
    obtain ⟨text, split, more⟩ := digitsRead done₁
    have point : c = '.'.toUInt8 := of_decide_eq_true tested
    exact ⟨'.'.toUInt8::text,by rw [same, point, split]; rfl,.some more⟩
  | false =>
    obtain ⟨_, same⟩ := pureDone.mp done₁
    exact ⟨[],(acceptLeft tried).1.symm.trans same,.none⟩

theorem exponentRead (done : exponent s = .done answer rest) : ∃ text, s = text ++ rest ∧ ExponentText text := by
  unfold exponent at done
  obtain ⟨marked, mid, tried, done₁⟩ := bindDone.mp done
  cases marked with
  | true =>
    obtain ⟨c, same, mark⟩ := acceptTook tried
    obtain ⟨signed, mid', tried', done₂⟩ := bindDone.mp done₁
    obtain ⟨text, split, more⟩ := digitsRead done₂
    cases signed with
    | true =>
      obtain ⟨d, same', sign⟩ := acceptTook tried'
      exact ⟨c::([d] ++ text),by rw [same, same', split]; rfl,.some mark (.some sign) more⟩
    | false =>
      have kept := (acceptLeft tried').1
      exact ⟨c::([] ++ text),by rw [same, ← kept, split]; rfl,.some mark .none more⟩
  | false =>
    obtain ⟨_, same⟩ := pureDone.mp done₁
    exact ⟨[],(acceptLeft tried).1.symm.trans same,.none⟩

theorem parseNumberRead {ν : Type} {strtod : Text → ν} {value : ν} (done : parseNumber strtod s = .done value rest) :
    ∃ text, s = text ++ rest ∧ NumberText text ∧ value = strtod s := by
  unfold parseNumber at done
  obtain ⟨start, _, here, done₁⟩ := bindDone.mp done
  cases here
  obtain ⟨minus, mid, tried, done₂⟩ := bindDone.mp done₁
  obtain ⟨_, mid₁, one, done₃⟩ := bindDone.mp done₂
  obtain ⟨_, mid₂, two, done₄⟩ := bindDone.mp done₃
  obtain ⟨_, mid₃, three, done₅⟩ := bindDone.mp done₄
  obtain ⟨same, rfl⟩ := pureDone.mp done₅
  obtain ⟨exponent, split₃, third⟩ := exponentRead three
  obtain ⟨fraction, split₂, second⟩ := fractionRead two
  obtain ⟨integer, split₁, first⟩ := integerRead one
  rw [split₂, split₃] at split₁
  cases minus with
  | true =>
    obtain ⟨c, split, tested⟩ := acceptTook tried
    have minus : c = '-'.toUInt8 := of_decide_eq_true tested
    exact ⟨'-'.toUInt8::(integer ++ (fraction ++ exponent)),by rw [split, minus, split₁]; simp,
      .minus first second third,same.symm⟩
  | false =>
    have kept := (acceptLeft tried).1
    exact ⟨integer ++ (fraction ++ exponent),by rw [← kept, split₁]; simp,.plain first second third,same.symm⟩

end Read

section Taken
variable {rest : Text}

theorem digitsTaken {text : Text} (offered : Digits text) (behind : Follows AfterInteger rest) :
    digits (text ++ rest) = .done () rest := by
  obtain ⟨some, all⟩ := offered
  obtain ⟨stop, later, rfl, ends⟩ := behind
  cases text with
  | nil => exact absurd rfl some
  | cons c text =>
    obtain ⟨first, others⟩ := List.forall_mem_cons.mp all
    unfold digits
    exact (doneBind (requireTrue isDigit first _)).trans (skipWhileStops others ends)

theorem integerTaken {text : Text} (offered : IntegerText text) (behind : Follows AfterInteger rest) :
    integerPart (text ++ rest) = .done () rest := by
  unfold integerPart
  cases offered with
  | zero => exact doneBind (acceptTrue isZero (by decide) rest)
  | digits more first => exact (doneBind (acceptFalse isZero first _)).trans (digitsTaken more behind)

theorem fractionTaken {text : Text} (offered : FractionText text) (behind : Follows AfterFraction rest) :
    fraction (text ++ rest) = .done () rest ∧ Follows AfterInteger (text ++ rest) := by
  obtain ⟨stop, later, rfl, digit, point⟩ := behind
  unfold fraction
  cases offered with
  | none => exact ⟨doneBind (acceptFalse isPoint point later),stop,later,rfl,digit⟩
  | some more =>
    exact ⟨(doneBind (acceptTrue isPoint (by decide) _)).trans (digitsTaken more ⟨stop,later,rfl,digit⟩),
      _,_,rfl,(marksApart _).1 (by decide)⟩

theorem exponentTaken {text : Text} (offered : ExponentText text) (behind : Follows AfterExponent rest) :
    exponent (text ++ rest) = .done () rest ∧ Follows AfterFraction (text ++ rest) := by
  obtain ⟨stop, later, rfl, digit, point, mark⟩ := behind
  have ends : Follows AfterInteger (stop::later) := ⟨stop,later,rfl,digit⟩
  unfold exponent
  cases offered with
  | none => exact ⟨doneBind (acceptFalse isExponent mark later),stop,later,rfl,digit,point⟩
  | @some c sign text marked signed more =>
    refine ⟨(doneBind (acceptTrue isExponent marked _)).trans ?_,_,_,rfl,(marksApart _).2.1 marked⟩
    cases signed with
    | some sign => exact (doneBind (acceptTrue isSign sign _)).trans (digitsTaken more ends)
    | none =>
      have unsigned : ∃ d later, text = d::later ∧ isSign d = false := by
        obtain ⟨some, all⟩ := more
        cases text with
        | nil => exact absurd rfl some
        | cons d later =>
          refine ⟨d,later,rfl,?_⟩
          cases sign : isSign d with
          | false => rfl
          | true =>
            have digit := (marksApart d).2.2.1 sign
            rw [all d (by simp)] at digit
            cases digit
      obtain ⟨d, later', rfl, plain⟩ := unsigned
      exact (doneBind (acceptFalse isSign plain _)).trans (digitsTaken more ends)

theorem parseNumberTaken {ν : Type} (strtod : Text → ν) {text : Text} (offered : NumberText text)
    (behind : Follows AfterExponent rest) : parseNumber strtod (text ++ rest) = .done (strtod (text ++ rest)) rest := by
  have unsigned : ∀ {integer fraction' exponent'}, IntegerText integer → FractionText fraction' → ExponentText exponent' →
      ∀ start, (do integerPart; fraction; exponent; return strtod start : Reader UInt8 ν)
        (integer ++ (fraction' ++ (exponent' ++ rest))) = .done (strtod start) rest := by
    intro integer fraction' exponent' first second third start
    obtain ⟨three, behind₃⟩ := exponentTaken third behind
    obtain ⟨two, behind₂⟩ := fractionTaken second behind₃
    have one := integerTaken first behind₂
    rw [doneBind one, doneBind two, doneBind three]
    rfl
  unfold parseNumber
  rw [doneBind hereDone]
  cases offered with
  | @plain integer fraction' exponent' first second third =>
    have plain : ∃ d later, integer = d::later ∧ isMinus d = false := by
      cases first with
      | zero => exact ⟨_,_,rfl,by decide⟩
      | @digits c text more _ =>
        refine ⟨c,text,rfl,?_⟩
        cases minus : isMinus c with
        | false => rfl
        | true =>
          have digit := (marksApart c).2.2.2 minus
          rw [more.2 c (by simp)] at digit
          cases digit
    obtain ⟨d, later, rfl, other⟩ := plain
    have held := unsigned first second third (d::later ++ (fraction' ++ exponent') ++ rest)
    simp only [List.append_assoc, List.cons_append] at held ⊢
    rw [doneBind (acceptFalse isMinus other _)]
    exact held
  | @minus integer fraction' exponent' first second third =>
    have held := unsigned first second third ('-'.toUInt8::(integer ++ (fraction' ++ exponent')) ++ rest)
    simp only [List.append_assoc, List.cons_append] at held ⊢
    rw [doneBind (acceptTrue isMinus (by decide) _)]
    exact held

end Taken

theorem digitsSafe {most : Nat} : Safe 0 most 1 digits :=
  safeFirst (safeRequire (by decide)) fun _ => safeSkipWhile (by decide)

theorem parseNumberSafe {ν : Type} (strtod : Text → ν) {most : Nat} : Safe 0 most 1 (parseNumber strtod) := by
  have integer : ∀ n, Safe 0 n 1 integerPart := fun n => safeBranch (by decide) (safePure ()) digitsSafe
  have fraction' : ∀ n, Safe 0 n 0 fraction := fun n => by
    refine safeIdle (safeAccept (by decide)) fun pointed => ?_
    cases pointed with
    | true => exact safeWeaken digitsSafe (Nat.le_refl n) (Nat.zero_le 1)
    | false => exact safePure ()
  have exponent' : ∀ n, Safe 0 n 0 exponent := fun n => by
    refine safeIdle (safeAccept (by decide)) fun marked => ?_
    cases marked with
    | true => exact safeIdle (safeAccept (by decide)) fun _ => safeWeaken digitsSafe (Nat.le_refl n) (Nat.zero_le 1)
    | false => exact safePure ()
  exact safeIdle safeHere fun start => safeIdle (safeAccept (by decide)) fun _ => safeFirst (integer most) fun _ =>
    safeIdle (fraction' _) fun _ => safeIdle (exponent' _) fun _ => safePure _

theorem numberIsValidExact {num : CText} : numberIsValid num = true ↔ NumberText num.bytes := by
  unfold numberIsValid CText.memory
  rw [decide_eq_true_iff]
  constructor
  · intro done
    obtain ⟨text, same, offered, _⟩ := parseNumberRead done
    rwa [List.append_cancel_right same]
  · intro offered
    exact parseNumberTaken _ offered ⟨0,[],rfl,delimiterEnds 0 (by simp [Delimiter])⟩

/- The numbers of the program: how `sprintf` prints one with `%.16g`, as a number unless it is
not finite, and what `strtod` makes of a text, in which it reads no further than the number goes. -/
structure Doubles (ν : Type) where
  print : ν → CText
  finite : ν → Bool
  prints : ∀ num, NumberText (print num).bytes ↔ finite num = true
  short : ∀ num, (print num).bytes.length < 64
  strtod : Text → ν
  stops : ∀ text rest, NumberText text → Follows Delimiter rest → strtod (text ++ rest) = strtod (text ++ [0])

example : numberIsValid ⟨['-'.toUInt8,'0'.toUInt8,'.'.toUInt8,'5'.toUInt8,'e'.toUInt8,'1'.toUInt8],by decide⟩ = true := by
  decide
example : numberIsValid ⟨['0'.toUInt8,'1'.toUInt8],by decide⟩ = false := by decide

end PennDaq.JsonNumbers
