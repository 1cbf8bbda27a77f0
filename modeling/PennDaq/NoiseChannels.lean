import PennDaq.FindNoise

/-! The loops of `FindNoise` over single channels: what a pass does, and what holds of a
channel before, in and after its turn. -/
namespace PennDaq.NoiseChannels
open Lib.Loop
open FindNoise

section Passes
variable {slotMasks : Fin 20 → BitVec 32} {gaveUp : BitVec 32 → Bool}
  {pass : Channel → BitVec 32 → BitVec 32 → ℕ → Turn (BitVec 32) (BitVec 32)} {counts : ℕ → Option (BitVec 32 × BitVec 32)}

def Tuner.counted (s : Tuner) (c : Channel) : Tuner := { s.load c with reads := s.reads+1 }

inductive Pass (slotMasks : Fin 20 → BitVec 32) (gaveUp : BitVec 32 → Bool)
    (pass : Channel → BitVec 32 → BitVec 32 → ℕ → Turn (BitVec 32) (BitVec 32)) (counts : ℕ → Option (BitVec 32 × BitVec 32))
    (s : Tuner) : Tuner → Prop where
  | enter {i : Fin 20} {more : List (Fin 20)} (none' : s.channels = []) (crates : s.crates = i::more) :
      Pass slotMasks gaveUp pass counts s { s with crates := more, channels := channelsOf slotMasks i }
  | skip {c : Channel} {rest : List Channel} (channels : s.channels = c::rest) (spent : gaveUp (s.currentVthr2 c) = true) :
      Pass slotMasks gaveUp pass counts s { s with channels := rest, steps := 0 }
  | again {c : Channel} {rest : List Channel} {first second vthr : BitVec 32} (channels : s.channels = c::rest)
      (under : gaveUp (s.currentVthr2 c) = false) (given : counts s.reads = some (first,second))
      (next : pass c (s.currentVthr2 c) (second-first) s.steps = .again vthr) :
      Pass slotMasks gaveUp pass counts s
        { Tuner.counted s c with currentVthr2 := Function.update s.currentVthr2 c vthr, steps := s.steps+1 }
  | leave {c : Channel} {rest : List Channel} {first second vthr : BitVec 32} (channels : s.channels = c::rest)
      (under : gaveUp (s.currentVthr2 c) = false) (given : counts s.reads = some (first,second))
      (last : pass c (s.currentVthr2 c) (second-first) s.steps = .stop vthr) :
      Pass slotMasks gaveUp pass counts s
        { Tuner.counted s c with currentVthr2 := Function.update s.currentVthr2 c vthr, channels := rest, steps := 0 }

theorem enterTurn {s : Tuner} {i : Fin 20} {more : List (Fin 20)} (none' : s.channels = []) (crates : s.crates = i::more) :
    channelTurn slotMasks gaveUp pass counts s = .again { s with crates := more, channels := channelsOf slotMasks i } := by
  unfold channelTurn
  simp only [none', crates]

theorem skipTurn {s : Tuner} {c : Channel} {rest : List Channel} (channels : s.channels = c::rest)
    (spent : gaveUp (s.currentVthr2 c) = true) :
    channelTurn slotMasks gaveUp pass counts s = .again { s with channels := rest, steps := 0 } := by
  unfold channelTurn
  simp only [channels, spent, if_true]

section Turns
variable {s : Tuner} {c : Channel} {rest : List Channel} {first second vthr : BitVec 32} (channels : s.channels = c::rest)
  (under : gaveUp (s.currentVthr2 c) = false) (given : counts s.reads = some (first,second))

include channels under given

theorem goTurn (next : pass c (s.currentVthr2 c) (second-first) s.steps = .again vthr) :
    channelTurn slotMasks gaveUp pass counts s = .again
      { Tuner.counted s c with currentVthr2 := Function.update s.currentVthr2 c vthr, steps := s.steps+1 } := by
  have next' : pass c ((s.load c).currentVthr2 c) (second-first) (s.load c).steps = .again vthr := next
  unfold channelTurn
  simp only [channels, under, given, Bool.false_eq_true, if_false, next']
  rfl

theorem leaveTurn (last : pass c (s.currentVthr2 c) (second-first) s.steps = .stop vthr) :
    channelTurn slotMasks gaveUp pass counts s = .again
      { Tuner.counted s c with currentVthr2 := Function.update s.currentVthr2 c vthr, channels := rest, steps := 0 } := by
  have last' : pass c ((s.load c).currentVthr2 c) (second-first) (s.load c).steps = .stop vthr := last
  unfold channelTurn
  simp only [channels, under, given, Bool.false_eq_true, if_false, last']
  rfl

end Turns

theorem againPass {s t : Tuner} (turn : channelTurn slotMasks gaveUp pass counts s = .again t) :
    Pass slotMasks gaveUp pass counts s t := by
  unfold channelTurn at turn
  split at turn
  · rename_i none'
    split at turn
    · contradiction
    · rename_i crates
      cases turn
      exact .enter none' crates
  · rename_i c rest channels
    split at turn
    · rename_i spent
      cases turn
      exact .skip channels spent
    · rename_i under
      have under := Bool.eq_false_of_not_eq_true under
      split at turn
      · contradiction
      · rename_i given
        simp only at turn
        split at turn
        · rename_i next
          cases turn
          exact .again channels under given next
        · rename_i last
          cases turn
          exact .leave channels under given last

theorem stopPass {s : Tuner} {exit : Option Tuner} (turn : channelTurn slotMasks gaveUp pass counts s = .stop exit) :
    exit = none ∧ (∃ n, counts n = none) ∨ exit = some s ∧ s.channels = [] ∧ s.crates = [] := by
  unfold channelTurn at turn
  split at turn
  · rename_i none'
    split at turn
    · rename_i crates
      cases turn
      exact .inr ⟨rfl, none', crates⟩
    · contradiction
  · split at turn
    · contradiction
    · split at turn
      · rename_i failed
        cases turn
        exact .inl ⟨rfl, _, failed⟩
      · simp only at turn
        split at turn
        · contradiction
        · contradiction

end Passes

theorem channelsOfMem {slotMasks : Fin 20 → BitVec 32} {i : Fin 20} {c : Channel} :
    c ∈ channelsOf slotMasks i ↔ c.1 = i ∧ (slotMasks c.1).getLsbD c.2.1 = true := by
  obtain ⟨i', j, k⟩ := c
  unfold channelsOf
  constructor
  · intro mem
    obtain ⟨j', slot, mem⟩ := List.mem_flatMap.mp mem
    obtain ⟨k', -, same⟩ := List.mem_map.mp mem
    cases same
    exact ⟨rfl, (List.mem_filter.mp slot).2⟩
  · rintro ⟨rfl, slot⟩
    exact List.mem_flatMap.mpr
      ⟨j, List.mem_filter.mpr ⟨List.mem_finRange j, slot⟩, List.mem_map.mpr ⟨k, List.mem_finRange k, rfl⟩⟩

theorem channelsOfNodup (slotMasks : Fin 20 → BitVec 32) (i : Fin 20) : (channelsOf slotMasks i).Nodup := by
  refine List.nodup_flatMap.mpr ⟨fun j _ => ?_, ?_⟩
  · exact (List.nodup_finRange 32).map fun k k' same => congrArg (fun c : Channel => c.2.2) same
  · refine ((List.nodup_finRange 16).filter _).imp fun {j j'} different => ?_
    intro c mem mem'
    obtain ⟨k, -, rfl⟩ := List.mem_map.mp mem
    obtain ⟨k', -, same⟩ := List.mem_map.mp mem'
    exact different (congrArg (fun c : Channel => c.2.1) same).symm

theorem maskedCratesMem {crateMask : BitVec 32} {i : Fin 20} : i ∈ maskedCrates crateMask ↔ crateMask.getLsbD i = true := by
  unfold maskedCrates
  rw [List.mem_filter]
  exact and_iff_right (List.mem_finRange i)

theorem maskedCratesNodup (crateMask : BitVec 32) : (maskedCrates crateMask).Nodup := (List.nodup_finRange 20).filter _

structure Ordered (s : Tuner) : Prop where
  crates : s.crates.Nodup
  channels : s.channels.Nodup
  apart : ∀ c ∈ s.channels, c.1 ∉ s.crates
  steps : s.channels = [] → s.steps = 0

theorem orderedStart {s : Tuner} (crates : s.crates.Nodup) (start : s.channels = [] ∧ s.steps = 0) : Ordered s := by
  refine ⟨crates, ?_, ?_, fun _ => start.2⟩
  · rw [start.1]
    exact List.nodup_nil
  · rw [start.1]
    exact nofun

section Runs
variable {slotMasks : Fin 20 → BitVec 32} {gaveUp : BitVec 32 → Bool}
  {pass : Channel → BitVec 32 → BitVec 32 → ℕ → Turn (BitVec 32) (BitVec 32)} {counts : ℕ → Option (BitVec 32 × BitVec 32)}
  {s t : Tuner}

theorem orderedPass (ordered : Ordered s) (step : Pass slotMasks gaveUp pass counts s t) : Ordered t := by
  cases step with
  | @enter i more none' crates =>
    have distinct := ordered.crates
    rw [crates] at distinct
    obtain ⟨fresh, distinct⟩ := List.nodup_cons.mp distinct
    refine ⟨distinct, channelsOfNodup _ _, fun c mem => ?_, fun _ => ordered.steps none'⟩
    rw [(channelsOfMem.mp mem).1]
    exact fresh
  | skip channels | leave channels =>
    have distinct := ordered.channels
    have apart := ordered.apart
    rw [channels] at distinct apart
    exact ⟨ordered.crates, (List.nodup_cons.mp distinct).2, fun c mem => apart c (.tail _ mem), fun _ => rfl⟩
  | again channels =>
    refine ⟨ordered.crates, ordered.channels, ordered.apart, fun none' => ?_⟩
    have none' : s.channels = [] := none'
    rw [channels] at none'
    contradiction

section Length
variable {most : ℕ}
  (bounded : ∀ c vthr noise steps vthr', steps ≤ most → pass c vthr noise steps = .again vthr' → steps < most)

def passesLeft (slotMasks : Fin 20 → BitVec 32) (most : ℕ) (s : Tuner) : ℕ :=
  (s.crates.map fun i => (channelsOf slotMasks i).length*(most+1)+1).sum + s.channels.length*(most+1) - s.steps

include bounded

theorem passesLess (ordered : Ordered s ∧ s.steps ≤ most) (step : Pass slotMasks gaveUp pass counts s t) :
    (Ordered t ∧ t.steps ≤ most) ∧ passesLeft slotMasks most t < passesLeft slotMasks most s := by
  have after := orderedPass ordered.1 step
  have few := ordered.2
  cases step with
  | enter none' crates =>
    refine ⟨⟨after, few⟩, ?_⟩
    unfold passesLeft
    rw [crates, none', ordered.1.steps none', List.map_cons, List.sum_cons]
    simp only [List.length_nil]
    omega
  | @skip c rest channels | @leave c rest _ _ _ channels =>
    refine ⟨⟨after, Nat.zero_le _⟩, ?_⟩
    unfold passesLeft
    rw [channels, List.length_cons, Nat.succ_mul]
    change (List.map _ s.crates).sum + rest.length*(most+1) - 0 < _
    omega
  | again channels _ _ next =>
    have less := bounded _ _ _ _ _ few next
    refine ⟨⟨after, less⟩, ?_⟩
    unfold passesLeft
    change (List.map _ s.crates).sum + s.channels.length*(most+1) - (s.steps+1) < _
    rw [channels, List.length_cons, Nat.succ_mul]
    omega

theorem channelsEnd (start : Ordered s ∧ s.steps ≤ most) : ∃ exit,
    Ends (channelTurn slotMasks gaveUp pass counts) s exit ∧ (exit = none → ∃ n, counts n = none) := by
  obtain ⟨exit, done⟩ := endsWithin (fun s => Ordered s ∧ s.steps ≤ most) (passesLeft slotMasks most)
    (fun s t ordered turn => passesLess bounded ordered (againPass turn)) start
  have ends : Ends (channelTurn slotMasks gaveUp pass counts) s exit := ⟨_, done⟩
  refine ⟨exit, ends, endsInvariant (fun _ => True) (fun exit => exit = none → ∃ n, counts n = none)
    (fun _ _ _ _ => trivial) (fun s exit _ turn => ?_) trivial ends⟩
  rintro rfl
  rcases stopPass turn with failed | finished
  · exact failed.2
  · exact absurd finished.1 (Option.some_ne_none s).symm

end Length

section Channel
variable {before after : BitVec 32 → Prop} {during : ℕ → BitVec 32 → Prop} {c : Channel}

structure Here (before : BitVec 32 → Prop) (during : ℕ → BitVec 32 → Prop) (after : BitVec 32 → Prop) (c : Channel)
    (s : Tuner) : Prop where
  coming : c.1 ∈ s.crates → before (s.currentVthr2 c)
  waiting : ∀ d rest, s.channels = d::rest → c ∈ rest → before (s.currentVthr2 c)
  now : ∀ rest, s.channels = c::rest → during s.steps (s.currentVthr2 c)
  past : c.1 ∉ s.crates → c ∉ s.channels → after (s.currentVthr2 c)

structure Turns (gaveUp : BitVec 32 → Bool) (pass : Channel → BitVec 32 → BitVec 32 → ℕ → Turn (BitVec 32) (BitVec 32))
    (before : BitVec 32 → Prop) (during : ℕ → BitVec 32 → Prop) (after : BitVec 32 → Prop) (c : Channel) : Prop where
  first : ∀ vthr, before vthr → during 0 vthr
  skip : ∀ steps vthr, during steps vthr → gaveUp vthr = true → after vthr
  again : ∀ steps vthr noise vthr', during steps vthr → gaveUp vthr = false → pass c vthr noise steps = .again vthr' →
    during (steps+1) vthr'
  leave : ∀ steps vthr noise vthr', during steps vthr → gaveUp vthr = false → pass c vthr noise steps = .stop vthr' →
    after vthr'

theorem hereRest (first : ∀ vthr, before vthr → during 0 vthr) (ordered : Ordered s) (here : Here before during after c s)
    {d : Channel} {rest : List Channel} (channels : s.channels = d::rest)
    (next : t.crates = s.crates ∧ t.channels = rest ∧ t.steps = 0)
    (other : c ≠ d → t.currentVthr2 c = s.currentVthr2 c) (own : c = d → after (t.currentVthr2 c)) :
    Here before during after c t := by
  obtain ⟨crates, channels', steps⟩ := next
  have distinct := ordered.channels
  rw [channels] at distinct
  have fresh := (List.nodup_cons.mp distinct).1
  by_cases same : c = d
  · subst same
    have gone : c.1 ∉ s.crates := ordered.apart c (by rw [channels]; exact .head _)
    refine ⟨fun mem => absurd (crates ▸ mem) gone, fun d' rest' split' mem => ?_, fun rest' split' => ?_, fun _ _ => own rfl⟩
    · rw [channels'] at split'
      rw [split'] at fresh
      exact absurd (.tail _ mem) fresh
    · rw [channels'] at split'
      rw [split'] at fresh
      exact absurd (.head _) fresh
  · rw [← channels'] at channels
    refine ⟨fun mem => ?_, fun d' rest' split' mem => ?_, fun rest' split' => ?_, fun crate mem => ?_⟩
    · rw [other same]
      exact here.coming (crates ▸ mem)
    · rw [other same]
      exact here.waiting d _ channels (by rw [split']; exact .tail _ mem)
    · rw [other same, steps]
      exact first _ (here.waiting d _ channels (by rw [split']; exact .head _))
    · rw [other same]
      refine here.past (crates ▸ crate) fun mem' => ?_
      rw [channels] at mem'
      exact (List.mem_cons.mp mem').elim same mem

theorem hereAgain (ordered : Ordered s) (here : Here before during after c s) {d : Channel} {rest : List Channel}
    (channels : s.channels = d::rest) (next : t.crates = s.crates ∧ t.channels = s.channels ∧ t.steps = s.steps+1)
    (other : c ≠ d → t.currentVthr2 c = s.currentVthr2 c) (own : c = d → during (s.steps+1) (t.currentVthr2 c)) :
    Here before during after c t := by
  obtain ⟨crates, channels', steps⟩ := next
  have distinct := ordered.channels
  rw [channels] at channels' distinct
  by_cases same : c = d
  · subst same
    refine ⟨fun mem => ?_, fun d' rest' split' mem => ?_, fun _ _ => steps ▸ own rfl, fun _ mem => ?_⟩
    · exact absurd (crates ▸ mem) (ordered.apart c (by rw [channels]; exact .head _))
    · cases channels'.symm.trans split'
      exact absurd mem (List.nodup_cons.mp distinct).1
    · rw [channels'] at mem
      exact absurd (.head _) mem
  · rw [← channels'] at channels
    refine ⟨fun mem => ?_, fun d' rest' split' mem => ?_, fun rest' split' => ?_, fun crate mem => ?_⟩
    · rw [other same]
      exact here.coming (crates ▸ mem)
    · rw [other same]
      exact here.waiting d' rest' (channels.trans split') mem
    · exact absurd (List.cons.inj (channels'.symm.trans split')).1.symm same
    · rw [other same]
      exact here.past (crates ▸ crate) (channels ▸ mem)

theorem herePass (masked : (slotMasks c.1).getLsbD c.2.1 = true) (turns : Turns gaveUp pass before during after c)
    (ordered : Ordered s) (here : Here before during after c s) (step : Pass slotMasks gaveUp pass counts s t) :
    Here before during after c t := by
  cases step with
  | @enter i more none' crates =>
    have start (mem : c ∈ channelsOf slotMasks i) : before (s.currentVthr2 c) := by
      refine here.coming ?_
      rw [crates, (channelsOfMem.mp mem).1]
      exact .head _
    refine ⟨fun mem => here.coming (by rw [crates]; exact .tail _ mem), fun d rest channels mem => ?_,
      fun rest channels => ?_, fun crate mem => here.past (fun mem' => ?_) (by rw [none']; exact List.not_mem_nil)⟩
    · have channels : channelsOf slotMasks i = d::rest := channels
      exact start (by rw [channels]; exact .tail _ mem)
    · have channels : channelsOf slotMasks i = c::rest := channels
      change during s.steps _
      rw [ordered.steps none']
      exact turns.first _ (start (by rw [channels]; exact .head _))
    · rw [crates] at mem'
      rcases List.mem_cons.mp mem' with same | mem'
      · exact mem (channelsOfMem.mpr ⟨same, masked⟩)
      · exact crate mem'
  | @skip d rest channels spent =>
    refine hereRest turns.first ordered here channels ⟨rfl, rfl, rfl⟩ (fun _ => rfl) fun same => ?_
    subst same
    exact turns.skip _ _ (here.now rest channels) spent
  | @leave d rest first second vthr channels under given last =>
    refine hereRest turns.first ordered here channels ⟨rfl, rfl, rfl⟩ (fun other => Function.update_of_ne other _ _) fun same => ?_
    subst same
    change after (Function.update s.currentVthr2 c vthr c)
    rw [Function.update_self]
    exact turns.leave _ _ _ _ (here.now rest channels) under last
  | again channels under given next =>
    refine hereAgain ordered here channels ⟨rfl, rfl, rfl⟩ (fun other => Function.update_of_ne other _ _) fun same => ?_
    subst same
    change during _ (Function.update s.currentVthr2 c _ c)
    rw [Function.update_self]
    exact turns.again _ _ _ _ (here.now _ channels) under next

theorem channelEnds (masked : (slotMasks c.1).getLsbD c.2.1 = true) (turns : Turns gaveUp pass before during after c)
    (crates : s.crates.Nodup ∧ c.1 ∈ s.crates) (channels : s.channels = [] ∧ s.steps = 0) (start : before (s.currentVthr2 c))
    (ends : Ends (channelTurn slotMasks gaveUp pass counts) s (some t)) : after (t.currentVthr2 c) := by
  have here : Here before during after c s := by
    refine ⟨fun _ => start, fun d rest split' => ?_, fun rest split' => ?_, fun crate => absurd crates.2 crate⟩
    · rw [channels.1] at split'
      contradiction
    · rw [channels.1] at split'
      contradiction
  refine endsInvariant (fun s => Ordered s ∧ Here before during after c s) (fun exit => ∀ t, exit = some t → after (t.currentVthr2 c))
    (fun s t both turn => ⟨orderedPass both.1 (againPass turn), herePass masked turns both.1 both.2 (againPass turn)⟩)
    (fun s exit both turn t same => ?_) ⟨orderedStart crates.1 channels, here⟩ ends t rfl
  rcases stopPass turn with failed | ⟨exit, channels, crates⟩
  · rw [failed.1] at same
    contradiction
  · obtain rfl : s = t := Option.some.inj (exit.symm.trans same)
    exact both.2.past (by rw [crates]; exact List.not_mem_nil) (by rw [channels]; exact List.not_mem_nil)

end Channel
end Runs

inductive Tune (frequency : Frequency) (zero vthr noise : BitVec 32) (steps : ℕ) : Turn (BitVec 32) (BitVec 32) → Prop where
  | full (outside : vthr.toNat ≤ zero.toNat ∨ vthr = 255 ∨ vthr = 0) : Tune frequency zero vthr noise steps (.stop 255)
  | hard (inside : zero.toNat < vthr.toNat ∧ vthr ≠ 255) (near : (vthr-zero).toNat < 6)
      (quiet : steps = 0 ∨ noise.toNat < limit frequency) : Tune frequency zero vthr noise steps (.stop (zero+5))
  | harder (inside : zero.toNat < vthr.toNat ∧ vthr ≠ 255) (near : (vthr-zero).toNat < 6)
      (loud : ¬(steps = 0 ∨ noise.toNat < limit frequency)) : Tune frequency zero vthr noise steps (.stop (zero+6))
  | above (inside : zero.toNat < vthr.toNat ∧ vthr ≠ 255) (far : ¬(vthr-zero).toNat < 6)
      (loud : noise.toNat > tenfoldLimit frequency) : Tune frequency zero vthr noise steps (.stop (vthr+1))
  | back (inside : zero.toNat < vthr.toNat ∧ vthr ≠ 255) (far : ¬(vthr-zero).toNat < 6) (loud : noisy frequency noise = true)
      (most : ¬noise.toNat > tenfoldLimit frequency) :
      Tune frequency zero vthr noise steps (.stop (if steps > 0 then vthr+1 else vthr))
  | last (inside : zero.toNat < vthr.toNat ∧ vthr ≠ 255) (far : ¬(vthr-zero).toNat < 6) (third : steps = 3)
      (most : ¬noise.toNat > tenfoldLimit frequency) (quiet : ¬noisy frequency noise = true) :
      Tune frequency zero vthr noise steps (.stop vthr)
  | down (inside : zero.toNat < vthr.toNat ∧ vthr ≠ 255) (far : ¬(vthr-zero).toNat < 6) (more : steps ≠ 3)
      (most : ¬noise.toNat > tenfoldLimit frequency) (quiet : ¬noisy frequency noise = true) :
      Tune frequency zero vthr noise steps (.again (vthr-1))

theorem tuneCases (frequency : Frequency) (vthrZeros : Channel → BitVec 32) (c : Channel) (vthr noise : BitVec 32) (steps : ℕ) :
    Tune frequency (vthrZeros c) vthr noise steps (tuneChannel frequency vthrZeros c vthr noise steps) := by
  unfold tuneChannel
  split
  · rename_i outside
    exact .full outside
  · rename_i inside
    obtain ⟨above, inside, -⟩ := not_or.mp inside |>.imp not_le.mp not_or.mp
    split
    · rename_i near
      split
      · rename_i first
        exact .hard ⟨above, inside⟩ near (.inl first)
      · rename_i later
        split
        · rename_i quiet
          exact .hard ⟨above, inside⟩ near (.inr quiet)
        · rename_i loud
          exact .harder ⟨above, inside⟩ near (not_or.mpr ⟨later, loud⟩)
    · rename_i far
      split
      · rename_i loud
        exact .above ⟨above, inside⟩ far loud
      · rename_i most
        split
        · rename_i loud
          exact .back ⟨above, inside⟩ far loud most
        · rename_i quiet
          split
          · rename_i third
            exact .last ⟨above, inside⟩ far third most quiet
          · rename_i more
            exact .down ⟨above, inside⟩ far more most quiet

inductive Noisy (vthr noise : BitVec 32) (count : ℕ) : Turn (BitVec 32) (BitVec 32) → Prop where
  | quiet : Noisy vthr noise count (.stop vthr)
  | stuck (loud : AboveRate noise) (late : ¬(count+1 < 5 ∧ (vthr+1).toNat < 200)) :
      Noisy vthr noise count (.stop (vthr+1))
  | up (few : count+1 < 5) (low : (vthr+1).toNat < 200) : Noisy vthr noise count (.again (vthr+1))

theorem noisyCases (vthr noise : BitVec 32) (count : ℕ) : Noisy vthr noise count (stepNoisy vthr noise count) := by
  unfold stepNoisy
  split
  · rename_i loud
    split
    · rename_i many
      exact .stuck loud fun both => absurd both.1 (not_lt.mpr many)
    · rename_i few
      split
      · rename_i high
        exact .stuck loud fun both => absurd both.2 (not_lt.mpr high)
      · rename_i low
        exact .up (not_le.mp few) (not_le.mp low)
  · exact .quiet

end PennDaq.NoiseChannels
