import PennDaq.MbStability

/-! Whole runs of `MbStabilityTest`: when the test of a healthy crate flags no slot and
reads every slot out, with all that it appends to the histories. -/
namespace PennDaq.MbHistories
open Lib.Buffer Lib.Rows Bundles Messages MbStability

theorem goingShort (numPeds : Int) : (goingLine numPeds).bytes.length ≤ 32 := by
  have front : (literal "Going to fire ").bytes.length = 14 := by decide
  have behind : (literal " times\n").bytes.length = 7 := by decide
  have number := signedLength (BitVec.ofInt 32 numPeds)
  rw [goingLine, appendLength, appendLength, front, behind]
  omega

def Prints (n : Nat) : Prop := n = 10*((n-1)/10+1)

instance (n : Nat) : Decidable (Prints n) := inferInstanceAs (Decidable (n = _))

theorem historyNext (numPeds : Int) (n : Nat) : historyLength numPeds (n+1) =
    if Prints (n+1) then historyLength numPeds n + (firedLine (n+1)).bytes.length else historyLength numPeds n := by
  unfold historyLength
  by_cases prints : Prints (n+1)
  · have next : n+1 = 10*(n/10+1) := prints
    have tens : (n+1)/10 = n/10+1 := by omega
    rw [if_pos prints, tens, List.range_succ, List.map_append, List.sum_append, List.map_singleton,
      List.sum_singleton, ← next, Nat.add_assoc]
  · have later : n+1 ≠ 10*(n/10+1) := prints
    have tens : (n+1)/10 = n/10 := by omega
    rw [if_neg prints, tens]

theorem historyGrows (numPeds : Int) (n : Nat) : historyLength numPeds n ≤ historyLength numPeds (n+1) := by
  rw [historyNext]
  split
  · exact Nat.le_add_right _ _
  · exact Nat.le_refl _

section Runs
variable {crateNum : Fin 20} {slotMask : BitVec 32} {pulses : Pulses} {numPeds : Int} (fecDiff : BitVec 32)

theorem startFit : Fit historySize (start numPeds fecDiff).writes := by
  have short := goingShort numPeds
  refine (alikeFit (List.nodup_finRange 16) (by decide) []).mpr ⟨trivial, fun i _ => ?_⟩
  have empty : length historySize ([] : List (Write 16)) i = 0 := heldLength (holdsNothing (by decide)) i
  rw [empty]
  unfold historySize
  omega

theorem startLength (j : Fin 16) :
    lengthIn historySize (start numPeds fecDiff).errorHistory j = historyLength numPeds 0 := by
  have empty : length historySize ([] : List (Write 16)) j = 0 := heldLength (holdsNothing (by decide)) j
  have fit := @startFit numPeds fecDiff
  have going := alikeLength (List.nodup_finRange 16) (by decide) [] fit (List.mem_finRange j)
  rw [empty, Nat.zero_add] at going
  exact going

theorem startBlock : (start numPeds fecDiff).errorHistory.length = historySize*16 :=
  (fitHolds (by decide) (startFit fecDiff)).block

theorem keptSame {s s' : State} (same : kept s = some s') : s = s' := by
  unfold kept at same
  split at same
  · exact Option.some.inj same
  · cases same

theorem atMostOne : AtMostOne slotMask ∨ ∃ a b rest, slots slotMask = a::b::rest := by
  rcases parts : slots slotMask with _ | ⟨a, _ | ⟨b, rest⟩⟩
  · left
    intro i j mask
    exact absurd ((slotsMasked i).mpr mask) (by rw [parts]; exact List.not_mem_nil)
  · left
    intro i j mask mask'
    have first := (slotsMasked i).mpr mask
    have second := (slotsMasked j).mpr mask'
    rw [parts, List.mem_singleton] at first second
    exact first.trans second.symm
  · exact .inr ⟨a, b, rest, rfl⟩

structure Going (slotMask : BitVec 32) (numPeds : Int) (n : Nat) (s : State) : Prop where
  fresh : Fresh slotMask s
  counter : s.counter = expected n
  numPrint : s.numPrint = BitVec.ofNat 32 (10*(n/10+1))
  length : ∀ j ∈ slots slotMask, lengthIn historySize s.errorHistory j = historyLength numPeds n
  block : s.errorHistory.length = historySize*16

def Room (slotMask : BitVec 32) (numPeds : Int) (n : Nat) : Prop :=
  ∀ j ∈ slots slotMask, historySize*j + historyLength numPeds n < historySize*16

theorem roomBefore {n : Nat} (room : Room slotMask numPeds (n+1)) : Room slotMask numPeds n := by
  intro j mem
  have later := room j mem
  have grows := historyGrows numPeds n
  omega

theorem roomKept : HistoriesKept slotMask numPeds ↔ Room slotMask numPeds (fired numPeds) :=
  forall_congr' fun j => by rw [slotsMasked]

theorem goingStart : Going slotMask numPeds 0 (start numPeds fecDiff) where
  fresh := ⟨rfl,fun _ _ => rfl⟩
  counter := rfl
  numPrint := rfl
  length j _ := startLength fecDiff j
  block := startBlock fecDiff

theorem printsNow {n : Nat} : BitVec.ofNat 32 (n+1) = BitVec.ofNat 32 (10*(n/10+1)) ↔ Prints (n+1) := by
  constructor
  · intro same
    have value := congrArg BitVec.toNat same
    rw [BitVec.toNat_ofNat, BitVec.toNat_ofNat] at value
    change n+1 = 10*(n/10+1)
    omega
  · intro prints
    exact congrArg (BitVec.ofNat 32) prints

section Pulse
variable {n : Nat} {s : State} (going : Going slotMask numPeds n s)
include going

theorem printNext : printBehind (n+1) s = BitVec.ofNat 32 (10*((n+1)/10+1)) := by
  unfold printBehind
  rw [going.numPrint]
  by_cases prints : Prints (n+1)
  · have next : n+1 = 10*(n/10+1) := prints
    rw [if_pos (printsNow.mpr prints), show 10*((n+1)/10+1) = 10*(n/10+1) + 10 by omega, BitVec.ofNat_add]
    rfl
  · have later : n+1 ≠ 10*(n/10+1) := prints
    rw [if_neg (mt printsNow.mp prints), show (n+1)/10 = n/10 by omega]

theorem linesNext (one : AtMostOne slotMask) : linesBehind slotMask (n+1) s = s.writes ∧ ¬ (Prints (n+1) ∧ slots slotMask ≠ []) ∨
    Prints (n+1) ∧ ∃ a, slots slotMask = [a] ∧ linesBehind slotMask (n+1) s = (firedLine (n+1)).into a::s.writes := by
  have all : left slotMask s = slots slotMask := List.filter_eq_self.mpr fun j _ => by rw [congrFun going.fresh.clear j]; rfl
  unfold linesBehind
  rw [going.numPrint, all]
  by_cases prints : Prints (n+1)
  · rw [if_pos (printsNow.mpr prints)]
    cases parts : slots slotMask with
    | nil => exact .inl ⟨rfl, fun both => both.2 rfl⟩
    | cons a rest =>
      cases rest with
      | nil => exact .inr ⟨prints, a, rfl, rfl⟩
      | cons b rest =>
        have distinct := parts ▸ @slotsDistinct slotMask
        have first := (slotsMasked a).mp (parts ▸ List.mem_cons_self)
        have second := (slotsMasked b).mp (parts ▸ List.mem_cons_of_mem a List.mem_cons_self)
        exact absurd (one a b first second ▸ List.mem_cons_self) (List.nodup_cons.mp distinct).1
  · rw [if_neg (mt printsNow.mp prints)]
    exact .inl ⟨rfl, fun both => prints both.1⟩

structure Grown (slotMask : BitVec 32) (numPeds : Int) (n : Nat) (s' : State) : Prop where
  length : ∀ j ∈ slots slotMask, lengthIn historySize s'.errorHistory j = historyLength numPeds n
  inside : Room slotMask numPeds n → s'.errorHistory.length = historySize*16
  outside : s'.errorHistory.length ≤ historySize*16 → Room slotMask numPeds n

theorem historiesGrown (one : AtMostOne slotMask) (room : Room slotMask numPeds n) {s' : State}
    (writes : s'.writes = linesBehind slotMask (n+1) s) : Grown slotMask numPeds (n+1) s' := by
  rcases linesNext going one with ⟨same, none'⟩ | ⟨prints, a, parts, added⟩
  · have memory : s'.errorHistory = s.errorHistory := congrArg (memoryOf historySize) (writes.trans same)
    have equal (j : Fin 16) (mem : j ∈ slots slotMask) : historyLength numPeds (n+1) = historyLength numPeds n := by
      rw [historyNext, if_neg fun prints => none' ⟨prints, List.ne_nil_of_mem mem⟩]
    refine ⟨fun j mem => ?_, fun _ => ?_, fun _ j mem => ?_⟩
    · rw [memory, equal j mem]
      exact going.length j mem
    · rw [memory]
      exact going.block
    · rw [equal j mem]
      exact room j mem
  · have memory : s'.errorHistory = appended historySize s.errorHistory ((firedLine (n+1)).into a) :=
      congrArg (memoryOf historySize) (writes.trans added)
    have start : historySize*((firedLine (n+1)).into a : Write 16).row ≤ s.errorHistory.length := by
      rw [going.block]
      exact Nat.mul_le_mul_left _ (Nat.le_of_lt a.isLt)
    have length : lengthIn historySize s'.errorHistory a = historyLength numPeds (n+1) := by
      rw [memory, historyNext, if_pos prints, ← going.length a (parts ▸ List.mem_singleton_self a)]
      exact lengthGrown start
    have block := blockGrown start
    rw [← memory, going.block] at block
    change s'.errorHistory.length = max (historySize*16)
      (historySize*a + (lengthIn historySize s.errorHistory a + (firedLine (n+1)).bytes.length) + 1) at block
    have sum := historyNext numPeds n
    rw [if_pos prints, ← going.length a (parts ▸ List.mem_singleton_self a)] at sum
    rw [← sum] at block
    have room' : Room slotMask numPeds (n+1) ↔ historySize*a + historyLength numPeds (n+1) < historySize*16 := by
      rw [Room, parts, List.forall_mem_singleton]
    refine ⟨fun j mem => ?_, fun room => ?_, fun inside => room'.mpr ?_⟩
    · rw [parts, List.mem_singleton] at mem
      rw [mem, length]
    · have fits := room'.mp room
      omega
    · omega

end Pulse

theorem goingNext (one : AtMostOne slotMask) {n : Nat} {s : State} (going : Going slotMask numPeds n s)
    (room : Room slotMask numPeds n) (correct : ∀ j k, Correct crateNum j (expected (n+1)).gtid (pulses (n+1) j k)) :
    kept (pulse crateNum slotMask (n+1) pulses s) = some (pulse crateNum slotMask (n+1) pulses s) ∧
        Room slotMask numPeds (n+1) ∧ Going slotMask numPeds (n+1) (pulse crateNum slotMask (n+1) pulses s) ∨
      kept (pulse crateNum slotMask (n+1) pulses s) = none ∧ ¬ Room slotMask numPeds (n+1) := by
  rw [expected, ← going.counter] at correct
  have pulsed := pulseFresh going.fresh correct
  have grown := historiesGrown going one room pulsed.writes
  by_cases next : Room slotMask numPeds (n+1)
  · have block := grown.inside next
    refine .inl ⟨if_pos (Nat.le_of_eq block), next, ⟨pulsed.clear, fun j mem => ?_⟩, ?_, ?_, grown.length, block⟩
    · cases parts : slots slotMask with
      | nil =>
        rw [parts] at mem
        cases mem
      | cons a rest =>
        have masked := (slotsMasked a).mp (parts ▸ List.mem_cons_self)
        rw [one j a ((slotsMasked j).mp mem) masked]
        exact pulsed.first a rest parts
    · rw [expected, ← going.counter]
      exact pulsed.counter
    · rw [pulsed.numPrint]
      exact printNext going
  · exact .inr ⟨if_neg (mt grown.outside next), next⟩

section Healthy
variable (healthy : Healthy crateNum pulses numPeds)
include healthy

theorem runGoing (one : AtMostOne slotMask) {n : Nat} (last : n ≤ fired numPeds) :
    (∃ s, after crateNum slotMask pulses numPeds fecDiff n = some s ∧ Room slotMask numPeds n ∧
      Going slotMask numPeds n s) ∨
    after crateNum slotMask pulses numPeds fecDiff n = none ∧ ¬ Room slotMask numPeds n := by
  induction n with
  | zero =>
    refine .inl ⟨_, rfl, fun j _ => ?_, goingStart fecDiff⟩
    have short := goingShort numPeds
    change historySize*j + ((goingLine numPeds).bytes.length + 0) < historySize*16
    have behind := j.isLt
    unfold historySize
    omega
  | succ n ih =>
    rcases ih (Nat.le_of_succ_le last) with ⟨s, run, room, going⟩ | ⟨ended, tight⟩
    · have correct := healthy.bundles (n+1) (Nat.succ_le_succ (Nat.zero_le n)) last
      rw [after, run, Option.bind_some]
      exact (goingNext one going room correct).imp (fun next => ⟨_, next⟩) id
    · rw [after, ended, Option.bind_none]
      exact .inr ⟨rfl, fun room => tight (roomBefore room)⟩

theorem firstPulse (some' : 1 ≤ fired numPeds) : ∃ s, after crateNum slotMask pulses numPeds fecDiff 1 = some s ∧
    FirstRead slotMask 1 pulses (start numPeds fecDiff) s := by
  have pulsed : FirstRead slotMask 1 pulses (start numPeds fecDiff)
      (pulse crateNum slotMask 1 pulses (start numPeds fecDiff)) :=
    pulseFresh ⟨rfl,fun _ _ => rfl⟩ (healthy.bundles 1 (Nat.le_refl 1) some')
  have same : (pulse crateNum slotMask 1 pulses (start numPeds fecDiff)).errorHistory =
      (start numPeds fecDiff).errorHistory := congrArg (memoryOf historySize) pulsed.writes
  refine ⟨_, if_pos ?_, pulsed⟩
  rw [same, startBlock]

section Several
variable {a b : Fin 16} {rest : List (Fin 16)} (parts : slots slotMask = a::b::rest)
include parts

theorem secondLeft (some' : 1 ≤ fired numPeds) {s : State}
    (run : after crateNum slotMask pulses numPeds fecDiff 1 = some s) :
    s.slotErrors b = false ∧ s.crate.fifo b = pulseWords pulses 1 b := by
  obtain ⟨s', run', read⟩ := @firstPulse crateNum slotMask pulses numPeds fecDiff healthy some'
  cases run.symm.trans run'
  exact ⟨congrFun read.clear b, read.others a (b::rest) parts b List.mem_cons_self⟩

theorem secondFlagged (some' : 1 ≤ fired numPeds) {n : Nat} {s : State}
    (run : after crateNum slotMask pulses numPeds fecDiff (n+2) = some s) : s.slotErrors b = true := by
  induction n generalizing s with
  | zero =>
    obtain ⟨s', run', pulsed⟩ := Option.bind_eq_some_iff.mp run
    obtain ⟨clear, second⟩ := secondLeft fecDiff healthy parts some' run'
    have mem : b ∈ slots slotMask := parts ▸ List.mem_cons_of_mem a List.mem_cons_self
    have fifo := @firedFifo slotMask 2 pulses s' b mem clear
    rw [second] at fifo
    have length := congrArg List.length fifo
    rw [List.length_append, pulseLength, pulseLength] at length
    have wrong : level (firedState slotMask 2 pulses s').crate b ≠ 24 := by
      intro same
      have value := congrArg BitVec.toNat same
      rw [levelNat (by rw [length]; decide), length] at value
      exact absurd value (by decide)
    rw [← keptSame pulsed, pulseFired]
    exact throughKeeps (fun _ _ => readKeeps _) _ (checkFlags mem wrong)
  | succ n ih =>
    obtain ⟨s', run', pulsed⟩ := Option.bind_eq_some_iff.mp run
    rw [← keptSame pulsed]
    exact pulseKeeps pulses (ih run')

end Several

theorem flaggedExact : NoneFlagged crateNum slotMask pulses fecDiff numPeds ↔
    (AtMostOne slotMask ∧ HistoriesKept slotMask numPeds) ∨ fired numPeds ≤ 1 := by
  constructor
  · rintro ⟨s, run, clear⟩
    by_contra both
    obtain ⟨ends, more⟩ := not_or.mp both
    rcases atMostOne with one | ⟨a, b, rest, parts⟩
    · rcases runGoing fecDiff healthy one (Nat.le_refl _) with ⟨-, -, room, -⟩ | ⟨ended, -⟩
      · exact ends ⟨one, roomKept.mpr room⟩
      · cases run.symm.trans ended
    · obtain ⟨n, last⟩ := Nat.exists_eq_add_of_le (Nat.succ_le_of_lt (Nat.lt_of_not_le more))
      rw [last, Nat.add_comm (Nat.succ 1) n] at run
      have flagged := secondFlagged fecDiff healthy parts (by omega) run
      rw [clear b] at flagged
      cases flagged
  · rintro (⟨one, kept⟩ | few)
    · rcases runGoing fecDiff healthy one (Nat.le_refl _) with ⟨s, run, -, going⟩ | ⟨-, tight⟩
      · exact ⟨s, run, congrFun going.fresh.clear⟩
      · exact absurd (roomKept.mp kept) tight
    · unfold NoneFlagged
      rcases Nat.le_one_iff_eq_zero_or_eq_one.mp few with none' | one
      · rw [none']
        exact ⟨_, rfl, fun _ => rfl⟩
      · obtain ⟨s, run, read⟩ := @firstPulse crateNum slotMask pulses numPeds fecDiff healthy (Nat.le_of_eq one.symm)
        rw [one]
        exact ⟨s, run, congrFun read.clear⟩

theorem allReadExact : AllRead crateNum slotMask pulses fecDiff numPeds ↔
    (AtMostOne slotMask ∧ HistoriesKept slotMask numPeds) ∨ fired numPeds = 0 := by
  constructor
  · intro all
    by_contra both
    obtain ⟨ends, some'⟩ := not_or.mp both
    have fires : 1 ≤ fired numPeds := Nat.pos_of_ne_zero some'
    rcases atMostOne with one | ⟨a, b, rest, parts⟩
    · obtain ⟨s, run, -⟩ := all (fired numPeds) fires (Nat.le_refl _)
      rcases runGoing fecDiff healthy one (Nat.le_refl _) with ⟨-, -, room, -⟩ | ⟨ended, -⟩
      · exact ends ⟨one, roomKept.mpr room⟩
      · cases run.symm.trans ended
    · obtain ⟨s, run, empty⟩ := all 1 (Nat.le_refl 1) fires
      have masked := (slotsMasked b).mp (parts ▸ List.mem_cons_of_mem a List.mem_cons_self)
      have words := (secondLeft fecDiff healthy parts fires run).2
      rw [empty b masked] at words
      have length := congrArg List.length words
      rw [pulseLength] at length
      cases length
  · rintro (⟨one, kept⟩ | none') n first last
    · have room (m : Nat) : Room slotMask numPeds (fired numPeds) → m ≤ fired numPeds → Room slotMask numPeds m :=
        fun room few => Nat.decreasingInduction (fun _ _ => roomBefore) room few
      rcases runGoing fecDiff healthy one last with ⟨s, run, -, going⟩ | ⟨-, tight⟩
      · exact ⟨s, run, fun j masked => going.fresh.empty j ((slotsMasked j).mpr masked)⟩
      · exact absurd (room n (roomKept.mp kept) last) tight
    · omega

end Healthy

theorem stabilityExact (crateNum : Fin 20) (slotMask : BitVec 32) (pulses : Pulses) (fecDiff : BitVec 32) (numPeds : Int)
    (healthy : Healthy crateNum pulses numPeds) :
    (NoneFlagged crateNum slotMask pulses fecDiff numPeds ∧ AllRead crateNum slotMask pulses fecDiff numPeds ↔
      (AtMostOne slotMask ∧ HistoriesKept slotMask numPeds) ∨ fired numPeds = 0) ∧
    (NoneFlagged crateNum slotMask pulses fecDiff numPeds ↔
      (AtMostOne slotMask ∧ HistoriesKept slotMask numPeds) ∨ fired numPeds ≤ 1) := by
  have flags := @flaggedExact crateNum slotMask pulses numPeds fecDiff healthy
  have reads := @allReadExact crateNum slotMask pulses numPeds fecDiff healthy
  refine ⟨?_, flags⟩
  rw [flags, reads]
  constructor
  · exact fun both => both.2
  · intro few
    exact ⟨few.imp_right fun none' => by omega, few⟩

/- The line of the 2040th pulse leaves the array from slot 15. -/
example : HistoriesKept 0x8000 2040 ∧ ¬ HistoriesKept 0x8000 2041 := by decide +kernel

def countedPulses : Pulses := fun n j _ => fun
  | 0 => BitVec.ofNat 32 j <<< 26 ||| BitVec.ofNat 32 n
  | 1 | 2 => 0

theorem countedCorrect : ∀ n ∈ List.range' 1 12, ∀ j : Fin 16, Correct 0 j (expected n).gtid (countedPulses n j 0) := by
  decide

theorem countedHealthy {numPeds : Int} (few : fired numPeds ≤ 12) : Healthy 0 countedPulses numPeds := by
  constructor
  intro n first last j k
  exact countedCorrect n (List.mem_range'_1.mpr ⟨first, by omega⟩) j

/- A slot that is tested over the first line of the printout. -/
theorem stabilityExactOneSlot : HistoriesKept 0x1 13 ∧
    (NoneFlagged 0 0x1 countedPulses 0 13 ∧ AllRead 0 0x1 countedPulses 0 13 ↔
      (AtMostOne 0x1 ∧ HistoriesKept 0x1 13) ∨ fired 13 = 0) ∧
    (NoneFlagged 0 0x1 countedPulses 0 13 ↔ (AtMostOne 0x1 ∧ HistoriesKept 0x1 13) ∨ fired 13 ≤ 1) :=
  ⟨by decide, stabilityExact 0 0x1 countedPulses 0 13 (countedHealthy (by decide))⟩

/- Two slots and two pulses. -/
theorem secondSlotFlagged : Healthy 0 countedPulses 3 ∧
    ¬ NoneFlagged 0 0x3 countedPulses 0 3 ∧ ¬ AllRead 0 0x3 countedPulses 0 3 := by
  have healthy : Healthy 0 countedPulses 3 := countedHealthy (by decide)
  refine ⟨healthy, ?_, ?_⟩
  · rw [flaggedExact 0 healthy]
    decide
  · rw [allReadExact 0 healthy]
    decide

end Runs
end PennDaq.MbHistories
