import PennDaq.PedRunByChannel

/-! When the documents of `AllPedRunByChannel` are true to the runs. -/
namespace PennDaq.PedRunRecords
open Lib.Loop
open Lib.Scan
open Lib.Sweep
open PedRunByChannel
open Pedestals (Cell Pedestal emptyPedestal)

def CellOff (a : Args) (totalPulses : BitVec 32) (c : Cell) : Prop := CountOff totalPulses c ∨ MeanOff a c

theorem flagCellZero (a : Args) (totalPulses errorFlag : BitVec 32) (c : Cell) :
    flagCell a totalPulses errorFlag c = 0 ↔ errorFlag = 0 ∧ ¬ CellOff a totalPulses c := by
  have set {bit : BitVec 32} (some' : bit ≠ 0) (flag : BitVec 32) : flag ||| bit ≠ 0 :=
    fun zero => some' (BitVec.or_eq_zero_iff.mp zero).2
  unfold flagCell CellOff
  by_cases count : CountOff totalPulses c
  · by_cases mean : MeanOff a c
    · simp only [count, mean, if_true, true_or, not_true, and_false, iff_false]
      exact set (by decide) _
    · simp only [count, mean, if_true, if_false, true_or, not_true, and_false, iff_false]
      exact set (by decide) _
  · by_cases mean : MeanOff a c
    · simp only [count, mean, if_true, if_false, or_true, not_true, and_false, iff_false]
      exact set (by decide) _
    · simp only [count, mean, if_false, or_self, not_false_eq_true, and_true]

theorem flagZero (a : Args) (totalPulses : BitVec 32) (p : Pedestal) :
    flagOf a totalPulses p = 0 ↔ ∀ j, ¬ CellOff a totalPulses (p.thiscell j) := by
  have fold (cells : List (Fin 16)) (flag : BitVec 32) :
      cells.foldl (fun errorFlag j => flagCell a totalPulses errorFlag (p.thiscell j)) flag = 0 ↔
        flag = 0 ∧ ∀ j ∈ cells, ¬ CellOff a totalPulses (p.thiscell j) := by
    induction cells generalizing flag with
    | nil => simp
    | cons j later ih => rw [List.foldl_cons, ih, flagCellZero, List.forall_mem_cons, and_assoc]
  rw [flagOf, fold]
  exact ⟨fun zero j => zero.2 j (List.mem_finRange j), fun fine => ⟨rfl, fun j _ => fine j⟩⟩

section Returns
variable {a : Args} {slot : Fin 16} {ch : Fin 32} {env : Env}

theorem refusedReturns (fault : prepare a env = .error .returned) (g : Globals) :
    pedRunByChannel a slot ch env g = ⟨BitVec.ofInt 32 (-1),g⟩ := by
  unfold pedRunByChannel
  rw [fault]

theorem thrownReturns (fault : prepare a env = .error .thrown) (g : Globals) : pedRunByChannel a slot ch env g = ⟨0,g⟩ := by
  unfold pedRunByChannel
  rw [fault]

theorem measuredReturns {r : ReadOut} (ok : prepare a env = .ok r) (g : Globals) :
    pedRunByChannel a slot ch env g = ⟨flagOf a r.totalPulses (measured a ch env r),
      extremesOf (measured a ch env r),some ⟨a.crateNum,slot,ch⟩⟩ := by
  unfold pedRunByChannel
  rw [ok]
  cases turnOff env with
  | none | some done => rfl

end Returns

section Records
variable (a : Args) (hardware : Hardware) (first : Globals)

def Called (p : Fin 16 × Fin 32) : Prop := a.slotMask.getLsbD p.1 = true ∧ a.channelMask.getLsbD p.2 = true

def Before (slot ch : ℕ) (p : Fin 16 × Fin 32) : Prop :=
  Called a p ∧ (p.1.val < slot ∨ p.1.val = slot ∧ p.2.val < ch)

def Measures (p : Fin 16 × Fin 32) : Prop := ∃ r, prepare a (hardware.run p.1 p.2) = .ok r

inductive Held (done : Fin 16 × Fin 32 → Prop) (g : Globals) : Prop where
  | first (none' : ∀ p, done p → ¬ Measures a hardware p) (source : g.source = first.source)
  | run (p : Fin 16 × Fin 32) (mem : done p) (measures : Measures a hardware p)
      (source : g.source = some ⟨a.crateNum,p.1,p.2⟩)

variable {a hardware first}

theorem heldSame {done done' : Fin 16 × Fin 32 → Prop} (same : ∀ p, done p ↔ done' p) {g : Globals}
    (held : Held a hardware first done g) : Held a hardware first done' g := by
  obtain rfl : done = done' := funext fun p => propext (same p)
  exact held

theorem runHeld {done done' : Fin 16 × Fin 32 → Prop} (slot : Fin 16) (ch : Fin 32)
    (next : ∀ p, done' p ↔ done p ∨ p = (slot,ch)) {g : Globals} (held : Held a hardware first done g) :
    Held a hardware first done' (pedRunByChannel a slot ch (hardware.run slot ch) g).globals := by
  have own : done' (slot,ch) := (next _).mpr (.inr rfl)
  have later {error : Fault} (fault : prepare a (hardware.run slot ch) = .error error) : Held a hardware first done' g := by
    cases held with
    | first none' source =>
      refine .first (fun p mem ⟨r, measures⟩ => ?_) source
      rcases (next p).mp mem with mem | rfl
      · exact none' p mem ⟨r, measures⟩
      · rw [fault] at measures
        cases measures
    | run p mem measures source => exact .run p ((next p).mpr (.inl mem)) measures source
  cases ready : prepare a (hardware.run slot ch) with
  | error fault =>
    cases fault with
    | returned =>
      rw [refusedReturns ready]
      exact later ready
    | thrown =>
      rw [thrownReturns ready]
      exact later ready
  | ok r =>
    rw [measuredReturns ready]
    exact .run (slot,ch) own ⟨r, ready⟩ rfl

def Completes (a : Args) (env : Env) : Prop := (∃ r, prepare a env = .ok r) ∧ turnOff env ≠ none

/- What a document may show of a run. -/
structure Shows (a : Args) (hardware : Hardware) (slot : Fin 16) (ch : Fin 32) (errorFlag : BitVec 32) (g : Globals) :
    Prop where
  finished : errorFlag = 0 → Completes a (hardware.run slot ch)
  own : g.source = none ∨ g.source = some ⟨a.crateNum,slot,ch⟩
  computed : prepare a (hardware.run slot ch) ≠ .error .thrown

def RunRight (a : Args) (hardware : Hardware) (first : Globals) (slot : Fin 16) (ch : Fin 32) : Prop :=
  match prepare a (hardware.run slot ch) with
  | .error .thrown => False
  | .error .returned => (∀ p, Before a slot ch p → ¬ Measures a hardware p) ∧
      (first.source = none ∨ first.source = some ⟨a.crateNum,slot,ch⟩)
  | .ok r => turnOff (hardware.run slot ch) ≠ none ∨
      ∃ j, CellOff a r.totalPulses ((measured a ch (hardware.run slot ch) r).thiscell j)

theorem heldSource {slot : Fin 16} {ch : Fin 32} {g : Globals} (held : Held a hardware first (Before a slot ch) g) :
    (g.source = none ∨ g.source = some ⟨a.crateNum,slot,ch⟩) ↔ (∀ p, Before a slot ch p → ¬ Measures a hardware p) ∧
      (first.source = none ∨ first.source = some ⟨a.crateNum,slot,ch⟩) := by
  cases held with
  | first none' source => exact ⟨fun own => ⟨none', source ▸ own⟩, fun own => source ▸ own.2⟩
  | run p mem measures source =>
    refine ⟨fun own => ?_, fun own => absurd measures (own.1 p mem)⟩
    rcases own with none' | own
    · cases source.symm.trans none'
    · cases source.symm.trans own
      rcases mem.2 with earlier | ⟨-, earlier⟩
      · exact absurd earlier (lt_irrefl _)
      · exact absurd earlier (lt_irrefl _)

theorem runShows {slot : Fin 16} {ch : Fin 32} {g : Globals} (held : Held a hardware first (Before a slot ch) g) :
    Shows a hardware slot ch (pedRunByChannel a slot ch (hardware.run slot ch) g).errorFlag
      (pedRunByChannel a slot ch (hardware.run slot ch) g).globals ↔ RunRight a hardware first slot ch := by
  unfold RunRight
  cases ready : prepare a (hardware.run slot ch) with
  | error fault =>
    cases fault with
    | thrown => exact ⟨fun shows => shows.computed ready, False.elim⟩
    | returned =>
      have set : BitVec.ofInt 32 (-1) ≠ 0 := by decide
      have computed : prepare a (hardware.run slot ch) ≠ .error .thrown := by
        rw [ready]
        exact fun same => nomatch Except.error.inj same
      rw [refusedReturns ready]
      refine (Iff.intro ?_ ?_).trans (heldSource held)
      · exact fun shows => shows.own
      · exact fun own => ⟨fun zero => absurd zero set, own, computed⟩
  | ok r =>
    have computed : prepare a (hardware.run slot ch) ≠ .error .thrown := by
      rw [ready]
      exact fun same => nomatch same
    have zero := flagZero a r.totalPulses (measured a ch (hardware.run slot ch) r)
    rw [measuredReturns ready]
    constructor
    · intro shows
      by_contra wrong
      push Not at wrong
      exact (shows.finished (zero.mpr wrong.2)).2 wrong.1
    · intro right
      refine ⟨fun flag => ⟨⟨r, ready⟩, right.resolve_right fun ⟨j, off⟩ => ?_⟩, .inr rfl, computed⟩
      exact zero.mp flag j off

variable (a hardware first)

structure Recorded (slot : Fin 16) (errors : Fin 32 → Option (BitVec 32)) (extremes : Fin 32 → Option Globals) (most : ℕ) :
    Prop where
  outside : ∀ ch : Fin 32, a.channelMask.getLsbD ch = false → errors ch = none
  run : ∀ ch : Fin 32, a.channelMask.getLsbD ch = true → ch.val < most → ∃ g, Held a hardware first (Before a slot ch) g ∧
    errors ch = some (pedRunByChannel a slot ch (hardware.run slot ch) g).errorFlag ∧
    extremes ch = some (pedRunByChannel a slot ch (hardware.run slot ch) g).globals

structure Channels (slot : Fin 16) (docs : List Document) (most : ℕ) (s : State) : Prop where
  held : Held a hardware first (Before a slot most) s.globals
  recorded : Recorded a hardware first slot s.errorFlags s.extremes most
  docs : s.docs = docs

variable {a hardware first}

theorem beforeNext {slot : Fin 16} (ch : Fin 32) (slotMasked : a.slotMask.getLsbD slot = true)
    (masked : a.channelMask.getLsbD ch = true) (p : Fin 16 × Fin 32) :
    Before a slot (ch+1) p ↔ Before a slot ch p ∨ p = (slot,ch) := by
  unfold Before
  constructor
  · rintro ⟨called, earlier | ⟨same, most⟩⟩
    · exact .inl ⟨called, .inl earlier⟩
    · rcases Nat.lt_succ_iff_lt_or_eq.mp most with less | last
      · exact .inl ⟨called, .inr ⟨same, less⟩⟩
      · exact .inr (Prod.ext (Fin.ext same) (Fin.ext last))
  · rintro (⟨called, earlier | ⟨same, less⟩⟩ | rfl)
    · exact ⟨called, .inl earlier⟩
    · exact ⟨called, .inr ⟨same, Nat.lt_succ_of_lt less⟩⟩
    · exact ⟨⟨slotMasked, masked⟩, .inr ⟨rfl, Nat.lt_succ_self _⟩⟩

theorem beforeSkipped {slot : Fin 16} (ch : Fin 32) (unmasked : a.channelMask.getLsbD ch = false) (p : Fin 16 × Fin 32) :
    Before a slot ch p ↔ Before a slot (ch+1) p := by
  unfold Before
  refine and_congr_right fun called => or_congr_right (and_congr_right fun _ => ?_)
  refine ⟨Nat.lt_succ_of_lt, fun most => lt_of_le_of_ne (Nat.le_of_lt_succ most) fun last => ?_⟩
  have masked := called.2
  rw [Fin.ext last, unmasked] at masked
  contradiction

theorem channelKeeps {slot : Fin 16} (slotMasked : a.slotMask.getLsbD slot = true) {docs : List Document} (ch : Fin 32)
    (s : State) (kept : Channels a hardware first slot docs ch s) :
    Channels a hardware first slot docs (ch+1) (runChannel a hardware slot s ch) := by
  unfold runChannel
  split
  · rename_i masked
    refine ⟨runHeld slot ch (beforeNext ch slotMasked masked) kept.held, ⟨fun other unmasked => ?_, fun other own most => ?_⟩,
      kept.docs⟩
    · have different : other ≠ ch := by
        rintro rfl
        rw [masked] at unmasked
        contradiction
      exact (Function.update_of_ne different _ _).trans (kept.recorded.outside other unmasked)
    · by_cases same : other = ch
      · subst same
        exact ⟨s.globals, kept.held, Function.update_self .., Function.update_self ..⟩
      · have less : other.val < ch.val := lt_of_le_of_ne (Nat.le_of_lt_succ most) fun equal => same (Fin.ext equal)
        obtain ⟨g, held, errors, extremes⟩ := kept.recorded.run other own less
        exact ⟨g, held, (Function.update_of_ne same _ _).trans errors, (Function.update_of_ne same _ _).trans extremes⟩
  · rename_i unmasked
    have unmasked := Bool.eq_false_of_not_eq_true unmasked
    refine ⟨heldSame (beforeSkipped ch unmasked) kept.held, ⟨kept.recorded.outside, fun other own most => ?_⟩, kept.docs⟩
    refine kept.recorded.run other own (lt_of_le_of_ne (Nat.le_of_lt_succ most) fun last => ?_)
    rw [Fin.ext last, unmasked] at own
    contradiction

variable (a hardware first)

structure Posted (slot : Fin 16) : Prop where
  updateDB : a.updateDB = true
  masked : a.slotMask.getLsbD slot = true
  posts : ∀ earlier ≤ slot, a.slotMask.getLsbD earlier = true → hardware.post earlier = true

structure Right (docs : List Document) (most : ℕ) : Prop where
  each : ∀ slot : Fin 16, slot.val < most → Posted a hardware slot →
    ∃ doc ∈ docs, doc.slot = slot ∧ Recorded a hardware first slot doc.errors doc.extremes 32
  all : ∀ doc ∈ docs, Posted a hardware doc.slot ∧ Recorded a hardware first doc.slot doc.errors doc.extremes 32

structure Slots (most : ℕ) (s : State) : Prop where
  held : Held a hardware first (Before a most 0) s.globals
  outside : ∀ ch : Fin 32, a.channelMask.getLsbD ch = false → s.errorFlags ch = none
  going : a.updateDB = true → ∀ slot : Fin 16, slot.val < most → a.slotMask.getLsbD slot = true → hardware.post slot = true
  right : Right a hardware first s.docs most

variable {a hardware first}

theorem channelsAll {slot : Fin 16} (masked : a.slotMask.getLsbD slot = true) {s : State}
    (kept : Slots a hardware first slot s) :
    Channels a hardware first slot s.docs 32 ((List.finRange 32).foldl (runChannel a hardware slot) s) := by
  refine sweepInvariant (Channels a hardware first slot s.docs) (fun ch t kept => channelKeeps masked ch t kept) ?_
  exact ⟨kept.held, ⟨kept.outside, fun ch _ most => absurd most (Nat.not_lt_zero _)⟩, rfl⟩

theorem beforeSlot (slot : ℕ) (p : Fin 16 × Fin 32) : Before a slot 32 p ↔ Before a (slot+1) 0 p := by
  refine and_congr_right fun _ => ?_
  constructor
  · rintro (earlier | ⟨same, -⟩)
    · exact .inl (Nat.lt_succ_of_lt earlier)
    · exact .inl (same ▸ Nat.lt_succ_self _)
  · rintro (most | ⟨-, none'⟩)
    · exact (Nat.lt_succ_iff_lt_or_eq.mp most).imp id fun same => ⟨same, p.2.isLt⟩
    · exact absurd none' (Nat.not_lt_zero _)

theorem beforeUnmasked {slot : Fin 16} (unmasked : a.slotMask.getLsbD slot = false) (p : Fin 16 × Fin 32) :
    Before a slot 0 p ↔ Before a (slot+1) 0 p := by
  refine and_congr_right fun called => or_congr ?_ (and_congr_left fun none' => absurd none' (Nat.not_lt_zero _))
  refine ⟨Nat.lt_succ_of_lt, fun most => lt_of_le_of_ne (Nat.le_of_lt_succ most) fun last => ?_⟩
  have masked := called.1
  rw [Fin.ext last, unmasked] at masked
  contradiction

theorem rightSkipped {slot : Fin 16} (none' : ¬ Posted a hardware slot) {docs : List Document}
    (right : Right a hardware first docs slot) : Right a hardware first docs (slot+1) := by
  refine ⟨fun other most posted => ?_, right.all⟩
  rcases Nat.lt_succ_iff_lt_or_eq.mp most with less | same
  · exact right.each other less posted
  · rw [Fin.ext same] at posted
    exact absurd posted none'

theorem rightStopped {slot : Fin 16} (masked : a.slotMask.getLsbD slot = true)
    (throws : ¬ hardware.post slot = true) {docs : List Document} (right : Right a hardware first docs slot) :
    Right a hardware first docs 16 := by
  refine ⟨fun other _ posted => ?_, right.all⟩
  rcases lt_or_ge other slot with less | later
  · exact right.each other less posted
  · exact absurd (posted.posts slot later masked) throws

theorem rightPosted {slot : Fin 16} (posted : Posted a hardware slot) {docs : List Document}
    (right : Right a hardware first docs slot) {errors : Fin 32 → Option (BitVec 32)} {extremes : Fin 32 → Option Globals}
    (recorded : Recorded a hardware first slot errors extremes 32) :
    Right a hardware first (docs ++ [⟨slot,errors,extremes⟩]) (slot+1) := by
  refine ⟨fun other most posted => ?_, fun doc mem => ?_⟩
  · rcases Nat.lt_succ_iff_lt_or_eq.mp most with less | same
    · obtain ⟨doc, mem, own⟩ := right.each other less posted
      exact ⟨doc, List.mem_append_left _ mem, own⟩
    · obtain rfl := Fin.ext same
      exact ⟨_, List.mem_append_right _ (.head _), rfl, recorded⟩
  · rcases List.mem_append.mp mem with mem | mem
    · exact right.all doc mem
    · rw [List.mem_singleton.mp mem]
      exact ⟨posted, recorded⟩

theorem slotKeeps (slot : Fin 16) (s t : State) (kept : Slots a hardware first slot s)
    (turn : runSlot a hardware s slot = .again t) : Slots a hardware first (slot+1) t := by
  unfold runSlot at turn
  split at turn
  · rename_i masked
    have channels := channelsAll masked kept
    have held : Held a hardware first (Before a (slot+1) 0) ((List.finRange 32).foldl (runChannel a hardware slot) s).globals :=
      heldSame (beforeSlot slot) channels.held
    split at turn
    · rename_i updateDB
      split at turn
      · rename_i posts
        cases turn
        have going (other : Fin 16) (most : other.val < slot+1) (own : a.slotMask.getLsbD other = true) :
            hardware.post other = true := by
          rcases Nat.lt_succ_iff_lt_or_eq.mp most with less | same
          · exact kept.going updateDB other less own
          · rw [Fin.ext same]
            exact posts
        have posted : Posted a hardware slot :=
          ⟨updateDB, masked, fun other most own => going other (Nat.lt_succ_of_le most) own⟩
        refine ⟨held, channels.recorded.outside, fun _ => going, ?_⟩
        have right := rightPosted posted kept.right channels.recorded
        rw [← channels.docs] at right
        exact right
      · cases turn
    · rename_i off
      cases turn
      refine ⟨held, channels.recorded.outside, fun on => absurd on off, ?_⟩
      have right := rightSkipped (fun posted => off posted.updateDB) kept.right
      rw [← channels.docs] at right
      exact right
  · rename_i unmasked
    cases turn
    have unmasked := Bool.eq_false_of_not_eq_true unmasked
    have off : ¬ a.slotMask.getLsbD slot = true := ne_true_of_eq_false unmasked
    refine ⟨heldSame (beforeUnmasked unmasked) kept.held, kept.outside, fun on other most own => ?_,
      rightSkipped (fun posted => off posted.masked) kept.right⟩
    refine kept.going on other (lt_of_le_of_ne (Nat.le_of_lt_succ most) fun last => ?_) own
    rw [Fin.ext last] at own
    exact off own

theorem slotStops (slot : Fin 16) (s t : State) (kept : Slots a hardware first slot s)
    (turn : runSlot a hardware s slot = .stop t) : Right a hardware first t.docs 16 := by
  unfold runSlot at turn
  split at turn
  · rename_i masked
    split at turn
    · split at turn
      · cases turn
      · rename_i throws
        cases turn
        rw [(channelsAll masked kept).docs]
        exact rightStopped masked throws kept.right
    · cases turn
  · cases turn

theorem docsRight (init : hardware.crateInit = true) :
    Right a hardware first (allPedRunByChannel a hardware first) 16 := by
  unfold allPedRunByChannel
  rw [if_pos init]
  refine scanInvariant (Slots a hardware first) (fun t => Right a hardware first t.docs 16) slotKeeps slotStops
    (fun s kept => kept.right) ?_
  refine ⟨.first (fun p mem => ?_) rfl, fun _ _ => rfl, fun _ slot most => absurd most (Nat.not_lt_zero _),
    ⟨fun slot most => absurd most (Nat.not_lt_zero _), fun doc mem => nomatch mem⟩⟩
  rcases mem.2 with earlier | ⟨-, earlier⟩
  · exact absurd earlier (Nat.not_lt_zero _)
  · exact absurd earlier (Nat.not_lt_zero _)

/- No error 0 for a run that did not complete, no extremes of another channel, no flag that
was not computed. -/
structure Truthful (a : Args) (hardware : Hardware) (doc : Document) : Prop where
  finished : ∀ ch, doc.errors ch = some 0 → a.channelMask.getLsbD ch = true ∧ Completes a (hardware.run doc.slot ch)
  own : ∀ ch g, doc.extremes ch = some g → g.source = none ∨ g.source = some ⟨a.crateNum,doc.slot,ch⟩
  computed : ∀ ch, doc.errors ch ≠ none ∧ prepare a (hardware.run doc.slot ch) ≠ .error .thrown

theorem recordedTruthful {doc : Document} (recorded : Recorded a hardware first doc.slot doc.errors doc.extremes 32) :
    Truthful a hardware doc ↔ a.channelMask = BitVec.allOnes 32 ∧ ∀ ch, RunRight a hardware first doc.slot ch := by
  constructor
  · intro truthful
    have masked (ch : Fin 32) : a.channelMask.getLsbD ch = true := by
      by_contra unmasked
      exact (truthful.computed ch).1 (recorded.outside ch (Bool.eq_false_of_not_eq_true unmasked))
    refine ⟨BitVec.eq_of_getLsbD_eq fun k bound => ?_, fun ch => ?_⟩
    · rw [BitVec.getLsbD_allOnes, masked ⟨k, bound⟩]
      exact (decide_eq_true bound).symm
    · obtain ⟨g, held, errors, extremes⟩ := recorded.run ch (masked ch) ch.isLt
      refine (runShows held).mp ⟨fun zero => ?_, truthful.own ch _ extremes, (truthful.computed ch).2⟩
      exact (truthful.finished ch (zero ▸ errors)).2
  · rintro ⟨full, right⟩
    have masked (ch : Fin 32) : a.channelMask.getLsbD ch = true := by
      rw [full, BitVec.getLsbD_allOnes]
      exact decide_eq_true ch.isLt
    have shows (ch : Fin 32) := recorded.run ch (masked ch) ch.isLt
    refine ⟨fun ch zero => ?_, fun ch g shown => ?_, fun ch => ?_⟩
    · obtain ⟨g, held, errors, -⟩ := shows ch
      exact ⟨masked ch, ((runShows held).mpr (right ch)).finished (Option.some.inj (errors.symm.trans zero))⟩
    · obtain ⟨g', held, -, extremes⟩ := shows ch
      rw [← Option.some.inj (extremes.symm.trans shown)]
      exact ((runShows held).mpr (right ch)).own
    · obtain ⟨g, held, errors, -⟩ := shows ch
      refine ⟨?_, ((runShows held).mpr (right ch)).computed⟩
      rw [errors]
      exact Option.some_ne_none _

end Records

theorem recordsExact (a : Args) (hardware : Hardware) (first : Globals) :
    (∀ doc ∈ allPedRunByChannel a hardware first, Truthful a hardware doc) ↔
      (hardware.crateInit = true → ∀ slot, Posted a hardware slot →
        a.channelMask = BitVec.allOnes 32 ∧ ∀ ch, RunRight a hardware first slot ch) := by
  constructor
  · intro truthful init slot posted
    obtain ⟨doc, mem, own, recorded⟩ := (@docsRight a hardware first init).each slot slot.isLt posted
    rw [← own] at recorded ⊢
    exact (recordedTruthful recorded).mp (truthful doc mem)
  · intro right doc mem
    cases init : hardware.crateInit with
    | false =>
      have none' : allPedRunByChannel a hardware first = [] := if_neg (ne_true_of_eq_false init)
      rw [none'] at mem
      cases mem
    | true =>
      obtain ⟨posted, recorded⟩ := (@docsRight a hardware first init).all doc mem
      exact (recordedTruthful recorded).mpr (right init doc.slot posted)

def answered : Env := ⟨fun _ _ => some 0,true,fun _ => 0,fun _ => emptyPedestal⟩

def cut : Env := { answered with reply := fun op _ => if op = .changeMode then none else some 0 }

def cutHardware : Hardware := ⟨true,fun _ ch => if ch.val = 1 then cut else answered,fun _ => true⟩

def slotZero : Args := ⟨0,1,0xFFFFFFFF,0,50,1000,300,true⟩

theorem exceptionCaught :
    ¬ ∀ doc ∈ allPedRunByChannel slotZero cutHardware ⟨⟨0,0,0,0,0,0⟩,none⟩, Truthful slotZero cutHardware doc := by
  intro truthful
  have posted : Posted slotZero cutHardware 0 := ⟨rfl, by decide, fun _ _ _ => rfl⟩
  obtain ⟨doc, mem, own, recorded⟩ := (@docsRight slotZero cutHardware ⟨⟨0,0,0,0,0,0⟩,none⟩ rfl).each 0 (by decide) posted
  have computed := ((truthful doc mem).computed 1).2
  rw [own] at computed
  exact computed rfl

end PennDaq.PedRunRecords
