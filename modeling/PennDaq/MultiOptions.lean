import PennDaq.Lib.Stores
import PennDaq.Options

/-! `GetMultiUInt` and `GetMultiFloat`: the stores that they make for a line of options,
and when these are the ones that the line asks for. -/
namespace PennDaq.MultiOptions
open Lib.CString
open Lib.Stores
open Options

section Stores
variable {α : Type} (number : Text → α) (num : ℕ) (flag : Char)

def allOf (value : α) : List (Store α) := (List.range num).map fun j => ⟨j,value⟩

def multiStores : List Text → List (Store α)
  | [] => []
  | [_] => []
  | word::value::later =>
    if isFlag flag word then allOf num (number value) ++ multiStores later
    else match indexOf num word with
      | some i => ⟨i,number value⟩::multiStores later
      | none => multiStores (value::later)

/- The two functions differ in how they read a number. -/
def getMulti (input : Text) (dflt : α) : List (Store α) :=
  allOf num dflt ++ multiStores number num flag (words input)

end Stores

def uintOf (value : Text) : BitVec 32 := toUInt32 (strtoul16 value)

def getMultiUInt (input : Text) (num : ℕ) (flag : Char) (dflt : BitVec 32) : List (Store (BitVec 32)) :=
  getMulti uintOf num flag input dflt

def getMultiFloat {α : Type} (strtod : Text → α) (input : Text) (num : ℕ) (flag : Char) (dflt : α) : List (Store α) :=
  getMulti strtod num flag input dflt

theorem writtenAll {α : Type} (num : ℕ) (value : α) (memory : ℕ → α) (k : ℕ) :
    written memory (allOf num value) k = if k < num then value else memory k := by
  split
  · rename_i inside
    refine writtenAgreed memory ⟨⟨k,value⟩, List.mem_map.mpr ⟨k, List.mem_range.mpr inside, rfl⟩, rfl⟩ ?_
    rintro store mem -
    obtain ⟨j, -, rfl⟩ := List.mem_map.mp mem
    rfl
  · rename_i outside
    refine writtenElsewhere memory fun store mem => ?_
    obtain ⟨j, below, rfl⟩ := List.mem_map.mp mem
    exact fun same => outside (same ▸ List.mem_range.mp below)

theorem multiWritten (num : ℕ) (flag : Char) (ws : List Text) (memory : ℕ → BitVec 32) :
    written memory (multiStores uintOf num flag ws) = getMultiUIntFrom num flag memory ws := by
  fun_induction multiStores uintOf num flag ws generalizing memory with
  | case1 => rfl
  | case2 word => rfl
  | case3 word value later matched ih =>
    rw [writtenAppend, ih, getMultiUIntFrom, if_pos matched]
    congr 1
    exact funext (writtenAll num (uintOf value) memory)
  | case4 word value later other i index ih =>
    rw [getMultiUIntFrom, if_neg other, index]
    refine (ih (Function.update memory i (uintOf value))).trans ?_
    congr 1
    funext k
    rw [Function.update_apply]
    rfl
  | case5 word value later other index ih =>
    rw [getMultiUIntFrom, if_neg other, index]
    exact ih memory

/- The commands read the option by the model of `Options`: both give the same array. -/
theorem getMultiWritten (input : Text) (num : ℕ) (flag : Char) (dflt : BitVec 32) (memory : ℕ → BitVec 32) {k : ℕ}
    (inside : k < num) :
    written memory (getMultiUInt input num flag dflt) k = Options.getMultiUInt input num flag dflt k := by
  rw [getMultiUInt, getMulti, writtenAppend, Options.getMultiUInt, ← multiWritten]
  refine writtenSame ?_ _
  rw [writtenAll, if_pos inside]

abbrev Pick := Option ℕ × Text

def appliesTo (k : ℕ) (pick : Pick) : Bool := pick.1 = none ∨ pick.1 = some k

def lastFor {α : Type} (number : Text → α) (dflt : α) (k : ℕ) (picks : List Pick) : α :=
  match (picks.filter (appliesTo k)).getLast? with
  | some pick => number pick.2
  | none => dflt

/- `-<flag> value`, or `-kk value` with the two digits of `kk`. -/
structure Given where
  place : Option (Fin 10 × Fin 10)
  value : Text

def digit (d : Fin 10) : Char := Nat.digitChar d

def Given.word (flag : Char) (g : Given) : Text :=
  match g.place with
  | none => ['-',flag]
  | some (tens,units) => ['-',digit tens,digit units]

def Given.pick (g : Given) : Pick := (g.place.map fun (tens,units) => 10*tens.val + units.val,g.value)

def lineOf (flag : Char) (given : List Given) : List Text := given.flatMap fun g => [g.word flag,g.value]

def LeavesLast {α : Type} (number : Text → α) (num : ℕ) (dflt : α) (given : List Given) (stores : List (Store α)) : Prop :=
  (∀ memory k, k < num → written memory stores k = lastFor number dflt k (given.map Given.pick)) ∧
    ∀ store ∈ stores, store.place < num

def picks (num : ℕ) (flag : Char) : List Text → List Pick
  | [] => []
  | [_] => []
  | word::value::later =>
    if isFlag flag word then (none,value)::picks num flag later
    else match indexOf num word with
      | some i => (some i,value)::picks num flag later
      | none => picks num flag (value::later)

def storesOf {α : Type} (number : Text → α) (num : ℕ) (pick : Pick) : List (Store α) :=
  match pick.1 with
  | none => allOf num (number pick.2)
  | some i => [⟨i,number pick.2⟩]

section Picked
variable {α : Type} (number : Text → α) (num : ℕ) (flag : Char)

theorem multiPicked (ws : List Text) :
    multiStores number num flag ws = (picks num flag ws).flatMap (storesOf number num) := by
  fun_induction picks num flag ws with
  | case1 => rfl
  | case2 word => rfl
  | case3 word value later matched ih =>
    rw [multiStores, if_pos matched, ih, List.flatMap_cons]
    rfl
  | case4 word value later other i index ih =>
    rw [multiStores, if_neg other, index, List.flatMap_cons]
    simp only [ih]
    rfl
  | case5 word value later other index ih =>
    rw [multiStores, if_neg other, index]
    exact ih

theorem storesWritten (memory : ℕ → α) {k : ℕ} (inside : k < num) (pick : Pick) :
    written memory (storesOf number num pick) k = if appliesTo k pick then number pick.2 else memory k := by
  obtain ⟨_ | i, value⟩ := pick
  · rw [if_pos (by simp [appliesTo])]
    exact (writtenAll num (number value) memory k).trans (if_pos inside)
  · refine (Function.update_apply memory i (number value) k).trans ?_
    simp [appliesTo, eq_comm]

theorem lastAppend (dflt : α) (k : ℕ) (before : List Pick) (pick : Pick) :
    lastFor number dflt k (before ++ [pick]) = if appliesTo k pick then number pick.2 else lastFor number dflt k before := by
  unfold lastFor
  rw [List.filter_append]
  cases applies : appliesTo k pick with
  | true => rw [List.filter_singleton, applies]; simp
  | false => rw [List.filter_singleton, applies]; simp

theorem picksWritten (memory : ℕ → α) {k : ℕ} (inside : k < num) (taken : List Pick) :
    written memory (taken.flatMap (storesOf number num)) k = lastFor number (memory k) k taken := by
  induction taken using List.reverseRecOn with
  | nil => rfl
  | append_singleton before pick ih =>
    rw [List.flatMap_append, writtenAppend, List.flatMap_singleton, storesWritten number num _ inside, ih, lastAppend]

theorem picksInside (taken : List Pick) (bounded : ∀ pick ∈ taken, ∀ i, pick.1 = some i → i ≤ num) :
    (∀ store ∈ taken.flatMap (storesOf number num), store.place < num) ↔ ∀ pick ∈ taken, pick.1 ≠ some num := by
  constructor
  · intro inside pick mem same
    have store : (⟨num,number pick.2⟩ : Store α) ∈ storesOf number num pick := by
      rw [storesOf, same]
      exact List.mem_singleton_self _
    exact lt_irrefl num (inside _ (List.mem_flatMap.mpr ⟨pick, mem, store⟩))
  · intro other store mem
    obtain ⟨pick, taken', made⟩ := List.mem_flatMap.mp mem
    unfold storesOf at made
    split at made
    · obtain ⟨j, below, rfl⟩ := List.mem_map.mp made
      exact List.mem_range.mp below
    · rename_i i same
      obtain rfl := List.mem_singleton.mp made
      refine lt_of_le_of_ne (bounded pick taken' i same) ?_
      rintro rfl
      exact other pick taken' same

end Picked

theorem indexWithin {num i : ℕ} {word : Text} (index : indexOf num word = some i) : i ≤ num := by
  unfold indexOf at index
  split at index
  · simp only at index
    split at index
    · rename_i both
      obtain ⟨-, -, tens, units⟩ := both
      cases index
      omega
    · contradiction
  · contradiction

theorem picksBounded (num : ℕ) (flag : Char) (ws : List Text) :
    ∀ pick ∈ picks num flag ws, ∀ i, pick.1 = some i → i ≤ num := by
  fun_induction picks num flag ws with
  | case1 => exact fun _ mem => absurd mem List.not_mem_nil
  | case2 word => exact fun _ mem => absurd mem List.not_mem_nil
  | case3 word value later matched ih =>
    intro pick mem i same
    rcases List.mem_cons.mp mem with rfl | mem
    · cases same
    · exact ih pick mem i same
  | case4 word value later other i index ih =>
    intro pick mem j same
    rcases List.mem_cons.mp mem with rfl | mem
    · cases same
      exact indexWithin index
    · exact ih pick mem j same
  | case5 word value later other index ih => exact ih

theorem leavesPicked {α : Type} (number : Text → α) (num : ℕ) (flag : Char) (input : Text) (dflt : α) (given : List Given) :
    LeavesLast number num dflt given (getMulti number num flag input dflt) ↔
      (∀ k, k < num → lastFor number dflt k (picks num flag (words input)) =
        lastFor number dflt k (given.map Given.pick)) ∧
      ∀ pick ∈ picks num flag (words input), pick.1 ≠ some num := by
  have value (memory : ℕ → α) (k : ℕ) (inside : k < num) : written memory (getMulti number num flag input dflt) k =
      lastFor number dflt k (picks num flag (words input)) := by
    rw [getMulti, writtenAppend, multiPicked, picksWritten number num _ inside, writtenAll, if_pos inside]
  have places : (∀ store ∈ getMulti number num flag input dflt, store.place < num) ↔
      ∀ pick ∈ picks num flag (words input), pick.1 ≠ some num := by
    rw [← picksInside number num _ (picksBounded num flag (words input)), ← multiPicked]
    refine ⟨fun inside store mem => inside store (List.mem_append_right _ mem), fun inside store mem => ?_⟩
    rcases List.mem_append.mp mem with mem | mem
    · obtain ⟨j, below, rfl⟩ := List.mem_map.mp mem
      exact List.mem_range.mp below
    · exact inside store mem
  refine and_congr ⟨fun leaves k inside => ?_, fun same memory k inside => ?_⟩ places
  · rw [← leaves (fun _ => dflt) k inside, value _ k inside]
  · rw [value memory k inside, same k inside]

def Recognised (num : ℕ) (g : Given) : Bool :=
  match g.place with
  | none => true
  | some (tens,units) => tens.val ≤ num/10 ∧ units.val ≤ num % 10

def ReadsAsOption (num : ℕ) (flag : Char) (word : Text) : Bool := isFlag flag word || (indexOf num word).isSome

theorem digitNumber : ∀ d : Fin 10, (digit d).toNat = 48 + d.val ∧ '0' ≤ digit d := by decide

theorem indexOfDigits (num : ℕ) (tens units : Fin 10) : indexOf num ['-',digit tens,digit units] =
    if tens.val ≤ num/10 ∧ units.val ≤ num % 10 then some (10*tens.val + units.val) else none := by
  obtain ⟨tensValue, tensUp⟩ := digitNumber tens
  obtain ⟨unitsValue, unitsUp⟩ := digitNumber units
  simp only [indexOf, tensValue, unitsValue, tensUp, unitsUp, true_and, Nat.add_sub_cancel_left]
  refine if_congr (and_congr_right fun few => ?_) (by rw [Nat.mul_comm]) rfl
  rw [show (num - tens.val*10) % 10 = num % 10 by omega]

section Scan
variable {num : ℕ} {flag : Char}

theorem skipWord {word : Text} (other : ReadsAsOption num flag word = false) (later : List Text) :
    picks num flag (word::later) = picks num flag later := by
  obtain ⟨noFlag, noIndex⟩ := Bool.or_eq_false_iff.mp other
  cases later with
  | nil => rfl
  | cons value later =>
    rw [picks, if_neg (by rw [noFlag]; decide)]
    rw [Option.isSome_eq_false_iff, Option.isNone_iff_eq_none] at noIndex
    rw [noIndex]

theorem skipFront {front : List Text} (other : ∀ word ∈ front, word.head? ≠ some '-') (later : List Text) :
    picks num flag (front ++ later) = picks num flag later := by
  induction front with
  | nil => rfl
  | cons word front ih =>
    rw [List.cons_append, skipWord, ih fun word mem => other word (List.mem_cons_of_mem _ mem)]
    have first := other word List.mem_cons_self
    unfold ReadsAsOption isFlag
    cases word with
    | nil => rfl
    | cons c rest =>
      have plain : c ≠ '-' := fun same => first (congrArg some same)
      have index : indexOf num (c::rest) = none := by
        unfold indexOf
        split
        · rename_i same
          cases same
          exact absurd rfl plain
        · rfl
      rw [index]
      simp [plain]

theorem pickGiven (letter : ∀ d, flag ≠ digit d) {g : Given} (recognised : Recognised num g = true) (later : List Text) :
    picks num flag (g.word flag::g.value::later) = g.pick::picks num flag later := by
  obtain ⟨_ | ⟨tens, units⟩, value⟩ := g
  · rw [picks, if_pos (by simp [Given.word, isFlag])]
    rfl
  · have within : tens.val ≤ num/10 ∧ units.val ≤ num % 10 := of_decide_eq_true recognised
    rw [picks, if_neg (by simp [Given.word, isFlag, Ne.symm (letter tens)]), Given.word]
    simp only [indexOfDigits, if_pos within]
    rfl

theorem passGiven (letter : ∀ d, flag ≠ digit d) {g : Given} (missed : Recognised num g = false) :
    ReadsAsOption num flag (g.word flag) = false := by
  obtain ⟨_ | ⟨tens, units⟩, value⟩ := g
  · cases missed
  · have outside : ¬ (tens.val ≤ num/10 ∧ units.val ≤ num % 10) := of_decide_eq_false missed
    rw [ReadsAsOption, Given.word, indexOfDigits, if_neg outside]
    simp [isFlag, Ne.symm (letter tens)]

theorem picksGiven (letter : ∀ d, flag ≠ digit d) {given : List Given}
    (plain : ∀ g ∈ given, Recognised num g = false → ReadsAsOption num flag g.value = false) :
    picks num flag (lineOf flag given) = (given.filter (Recognised num)).map Given.pick := by
  induction given with
  | nil => rfl
  | cons g later ih =>
    have rest := ih fun g mem => plain g (List.mem_cons_of_mem _ mem)
    have line : lineOf flag (g::later) = g.word flag::g.value::lineOf flag later := rfl
    cases recognised : Recognised num g with
    | true =>
      rw [line, pickGiven letter recognised, rest, List.filter_cons_of_pos recognised]
      rfl
    | false =>
      rw [line, skipWord (passGiven letter recognised), skipWord (plain g List.mem_cons_self recognised), rest,
        List.filter_cons_of_neg (by rw [recognised]; decide)]

end Scan

/- No option that is not recognised has a value that itself reads as an option. -/
def Plain (num : ℕ) (flag : Char) (given : List Given) : Prop :=
  ∀ g ∈ given, Recognised num g = false → ReadsAsOption num flag g.value = false

/- No index is `num` itself; and an index whose units are not reached has, by the last
option for it, what the options for all give it. -/
def Crisp {α : Type} (number : Text → α) (num : ℕ) (dflt : α) (given : List Given) : Prop :=
  (∀ g ∈ given, g.pick.1 ≠ some num) ∧ ∀ k, k < num → num % 10 < k % 10 →
    lastFor number dflt k (given.map Given.pick) =
      lastFor number dflt k ((given.filter fun g => g.place.isNone).map Given.pick)

/- Where the words get out of step, the last of those picked for an index has to bring
the number that the line gives, and none may be picked for `num`. -/
def PickedSame {α : Type} (number : Text → α) (num : ℕ) (flag : Char) (dflt : α) (given : List Given) : Prop :=
  (∀ pick ∈ picks num flag (lineOf flag given), pick.1 ≠ some num) ∧ ∀ k, k < num →
    lastFor number dflt k (picks num flag (lineOf flag given)) = lastFor number dflt k (given.map Given.pick)

def Followed {α : Type} (number : Text → α) (num : ℕ) (flag : Char) (dflt : α) (given : List Given) : Prop :=
  (Plain num flag given ∧ Crisp number num dflt given) ∨
    (¬ Plain num flag given ∧ PickedSame number num flag dflt given)

theorem appliesGiven {num k : ℕ} (inside : k < num) (g : Given) (applies : appliesTo k g.pick = true) :
    Recognised num g = if num % 10 < k % 10 then g.place.isNone else true := by
  obtain ⟨_ | ⟨tens, units⟩, value⟩ := g
  · split <;> rfl
  · have place : 10*tens.val + units.val = k := by simpa [appliesTo, Given.pick] using applies
    unfold Recognised
    simp only
    split
    · exact decide_eq_false fun both => by omega
    · exact decide_eq_true (by omega)

theorem lastRecognised {α : Type} (number : Text → α) (dflt : α) {num k : ℕ} (inside : k < num) (given : List Given) :
    lastFor number dflt k ((given.filter (Recognised num)).map Given.pick) =
      lastFor number dflt k ((given.filter fun g => if num % 10 < k % 10 then g.place.isNone else true).map Given.pick) := by
  unfold lastFor
  rw [List.filter_map, List.filter_map, List.filter_filter, List.filter_filter]
  congr 3
  refine List.filter_congr fun g _ => ?_
  cases applies : appliesTo k g.pick with
  | true => simp [applies, appliesGiven inside g applies]
  | false => simp [applies]

theorem recognisedEnd {num : ℕ} (given : List Given) :
    (∀ pick ∈ (given.filter (Recognised num)).map Given.pick, pick.1 ≠ some num) ↔ ∀ g ∈ given, g.pick.1 ≠ some num := by
  constructor
  · intro none' g mem same
    refine none' g.pick (List.mem_map_of_mem (List.mem_filter.mpr ⟨mem, ?_⟩)) same
    obtain ⟨_ | ⟨tens, units⟩, value⟩ := g
    · rfl
    · have place : 10*tens.val + units.val = num := Option.some.inj same
      exact decide_eq_true (by omega)
  · intro none' pick mem
    obtain ⟨g, inside, rfl⟩ := List.mem_map.mp mem
    exact none' g (List.mem_filter.mp inside).1

theorem leavesFollowed {α : Type} (number : Text → α) (num : ℕ) {flag : Char} (letter : ∀ d, flag ≠ digit d) (dflt : α)
    {input : Text} {front : List Text} {given : List Given} (other : ∀ word ∈ front, word.head? ≠ some '-')
    (line : words input = front ++ lineOf flag given) :
    LeavesLast number num dflt given (getMulti number num flag input dflt) ↔ Followed number num flag dflt given := by
  rw [leavesPicked, line, skipFront other]
  by_cases plain : Plain num flag given
  · rw [picksGiven letter plain, recognisedEnd, and_comm]
    have crisp : (∀ k, k < num → lastFor number dflt k ((given.filter (Recognised num)).map Given.pick) =
          lastFor number dflt k (given.map Given.pick)) ↔
        ∀ k, k < num → num % 10 < k % 10 → lastFor number dflt k (given.map Given.pick) =
          lastFor number dflt k ((given.filter fun g => g.place.isNone).map Given.pick) := by
      refine forall₂_congr fun k inside => ?_
      rw [lastRecognised number dflt inside]
      by_cases units : num % 10 < k % 10
      · simp only [units, if_true, true_imp_iff, eq_comm]
      · simp only [units, if_false, false_imp_iff, List.filter_true]
    rw [crisp]
    exact ⟨fun crisp => .inl ⟨plain, crisp⟩, fun followed => (followed.resolve_right fun both => both.1 plain).2⟩
  · rw [and_comm]
    exact ⟨fun same => .inr ⟨plain, same⟩, fun followed => (followed.resolve_left fun both => plain both.1).2⟩

/- A line of options behind words without a `-`, for both functions. -/
theorem multiExact {α : Type} (strtod : Text → α) (num : ℕ) {flag : Char} (letter : ∀ d, flag ≠ digit d)
    (dfltUInt : BitVec 32) (dfltFloat : α) {input : Text} {front : List Text} {given : List Given}
    (other : ∀ word ∈ front, word.head? ≠ some '-') (line : words input = front ++ lineOf flag given) :
    (LeavesLast uintOf num dfltUInt given (getMultiUInt input num flag dfltUInt) ↔
      Followed uintOf num flag dfltUInt given) ∧
    (LeavesLast strtod num dfltFloat given (getMultiFloat strtod input num flag dfltFloat) ↔
      Followed strtod num flag dfltFloat given) :=
  ⟨leavesFollowed uintOf num letter dfltUInt other line, leavesFollowed strtod num letter dfltFloat other line⟩

theorem multiExactMasks :
    (LeavesLast uintOf 20 0xFFFF [⟨none,"f".toList⟩,⟨some (1,0),"3".toList⟩]
        (getMultiUInt "find_noise -s f -10 3".toList 20 's' 0xFFFF) ↔
      Followed uintOf 20 's' 0xFFFF [⟨none,"f".toList⟩,⟨some (1,0),"3".toList⟩]) ∧
    (LeavesLast atoi 20 0 [⟨none,"f".toList⟩,⟨some (1,0),"3".toList⟩]
        (getMultiFloat atoi "find_noise -s f -10 3".toList 20 's' 0) ↔
      Followed atoi 20 's' 0 [⟨none,"f".toList⟩,⟨some (1,0),"3".toList⟩]) := by
  have front : words "find_noise -s f -10 3".toList =
      ["find_noise".toList] ++ lineOf 's' [⟨none,"f".toList⟩,⟨some (1,0),"3".toList⟩] := by decide
  exact multiExact atoi 20 (by decide) 0xFFFF 0 (by decide) front

/- Of the twenty crates only 00 and 10 have an option, and with sixteen slots `-16`
writes behind the array. -/
theorem cratesMissed :
    ¬ LeavesLast uintOf 20 0xFFFF [⟨some (0,5),"3".toList⟩]
      (getMultiUInt "find_noise -05 3".toList 20 's' 0xFFFF) ∧
    ¬ LeavesLast uintOf 16 0xF [⟨some (1,6),"3".toList⟩]
      (getMultiUInt "load_relays -16 3".toList 16 'p' 0xF) := by
  constructor
  · rintro ⟨values, -⟩
    exact absurd (values (fun _ => 0) 5 (by decide)) (by decide)
  · rintro ⟨-, inside⟩
    exact absurd (inside ⟨16,3⟩ (by decide)) (by decide)

end PennDaq.MultiOptions
