import PennDaq.NoiseThresholds

/-! The threshold DACs while `FindNoise` takes the channels one by one. -/
namespace PennDaq.NoiseLoads
open Lib.Loop
open FindNoise
open NoiseChannels
open NoiseSearch

section Load
variable (s : Tuner) (c : Channel)

theorem loadOwn : (s.load c).bench.dacs c = dacValue (s.currentVthr2 c) := by
  unfold Tuner.load multiLoadsDac
  simp only [Function.update_self, and_self, if_true]

theorem loadKeeps {d : Channel} {vthr : BitVec 32} (other : d ≠ c) (old : s.bench.dacs d = vthr)
    (entry : d.1 = c.1 → d.2.2 ≠ c.2.2 → d.2.1 = s.bench.slotNums d.2.2 → dacValue (s.bench.dacValues d.2.2) = vthr) :
    (s.load c).bench.dacs d = vthr := by
  unfold Tuner.load multiLoadsDac
  simp only
  split
  · rename_i here
    by_cases channel : d.2.2 = c.2.2
    · rw [channel, Function.update_self] at here
      exact absurd (Prod.ext here.1 (Prod.ext here.2 channel)) other
    · rw [Function.update_of_ne channel] at here ⊢
      exact entry here.1 channel here.2
  · exact old

theorem loadEntry {k : Fin 32} (other : k ≠ c.2.2) :
    (s.load c).bench.dacs (c.1,s.bench.slotNums k,k) = dacValue (s.bench.dacValues k) := by
  unfold Tuner.load multiLoadsDac
  simp only [Function.update_of_ne other, and_self, if_true]

end Load

/- What was loaded for the channels that are fixed, and what the table has for them in
the entries that are needed. -/
structure Loaded (fixed : Channel → Prop) (needed : Fin 20 → Fin 32 → Prop) (s : Tuner) : Prop where
  loaded : ∀ d, fixed d → s.bench.dacs d = s.currentVthr2 d
  table : ∀ i k, needed i k → fixed (i,s.bench.slotNums k,k) →
    dacValue (s.bench.dacValues k) = s.currentVthr2 (i,s.bench.slotNums k,k)

section Loaded
variable {fixed fixed' : Channel → Prop} {needed needed' : Fin 20 → Fin 32 → Prop} {s t : Tuner} {c : Channel}

theorem loadedRead (loaded : Loaded fixed needed s) (crate : ∀ k, k ≠ c.2.2 → needed c.1 k) {d : Channel} (fix : fixed d)
    (other : d ≠ c) : (s.load c).bench.dacs d = s.currentVthr2 d := by
  refine loadKeeps s c other (loaded.loaded d fix) fun same channel slot => ?_
  have place : d = (c.1,s.bench.slotNums d.2.2,d.2.2) := Prod.ext same (Prod.ext slot rfl)
  rw [place] at fix
  rw [loaded.table c.1 d.2.2 (crate _ channel) fix, ← place]

theorem loadedSame (loaded : Loaded fixed needed s) (same : t.bench = s.bench ∧ t.currentVthr2 = s.currentVthr2)
    (fewer : ∀ d, fixed' d → fixed d) (table : ∀ i k, needed' i k → needed i k) : Loaded fixed' needed' t := by
  constructor
  · intro d fix
    rw [same.1, same.2]
    exact loaded.loaded d (fewer d fix)
  · intro i k crate fix
    rw [same.1] at fix ⊢
    rw [same.2]
    exact loaded.table i k (table i k crate) (fewer _ fix)

theorem loadedPass {vthr : BitVec 32} (loaded : Loaded fixed needed s) (crate : ∀ k, k ≠ c.2.2 → needed c.1 k)
    (bench : t.bench = (s.load c).bench) (values : t.currentVthr2 = Function.update s.currentVthr2 c vthr)
    (others : ∀ d, fixed' d → d ≠ c → fixed d) (own : fixed' c → dacValue (s.currentVthr2 c) = vthr)
    (crates : ∀ i k, needed' i k → i = c.1) : Loaded fixed' needed' t := by
  constructor
  · intro d fix
    rw [bench, values]
    by_cases same : d = c
    · subst same
      rw [loadOwn, Function.update_self]
      exact own fix
    · rw [Function.update_of_ne same]
      exact loadedRead loaded crate (others d fix same) same
  · intro i k here fix
    obtain rfl := crates i k here
    rw [bench] at fix ⊢
    rw [values]
    change fixed' (c.1,Function.update s.bench.slotNums c.2.2 c.2.1 k,k) at fix
    change dacValue (Function.update s.bench.dacValues c.2.2 (s.currentVthr2 c) k) =
      Function.update s.currentVthr2 c vthr (c.1,Function.update s.bench.slotNums c.2.2 c.2.1 k,k)
    by_cases same : k = c.2.2
    · subst same
      rw [Function.update_self] at fix ⊢
      rw [Function.update_self, Function.update_self]
      exact own fix
    · rw [Function.update_of_ne same] at fix ⊢
      have other : (c.1,s.bench.slotNums k,k) ≠ c := fun place => same (congrArg (fun d : Channel => d.2.2) place)
      rw [Function.update_of_ne same, Function.update_of_ne other]
      exact loaded.table c.1 k (crate k same) (others _ fix other)

end Loaded

def OnlyCrate (crateMask : BitVec 32) (i : Fin 20) : Prop := ∀ i' : Fin 20, crateMask.getLsbD i' = true → i' = i

def toCome (slotMasks : Fin 20 → BitVec 32) (s : Tuner) : List Channel :=
  s.channels ++ s.crates.flatMap (channelsOf slotMasks)

def allChannels (crateMask : BitVec 32) (slotMasks : Fin 20 → BitVec 32) : List Channel :=
  (maskedCrates crateMask).flatMap (channelsOf slotMasks)

theorem allChannelsMem {crateMask : BitVec 32} {slotMasks : Fin 20 → BitVec 32} {c : Channel} :
    c ∈ allChannels crateMask slotMasks ↔ Masked crateMask slotMasks c := by
  rw [allChannels, List.mem_flatMap]
  constructor
  · rintro ⟨i, crate, mem⟩
    obtain ⟨rfl, slot⟩ := channelsOfMem.mp mem
    exact Bool.and_eq_true_iff.mpr ⟨maskedCratesMem.mp crate, slot⟩
  · intro masked
    obtain ⟨crate, slot⟩ := Bool.and_eq_true_iff.mp masked
    exact ⟨c.1, maskedCratesMem.mpr crate, channelsOfMem.mpr ⟨rfl, slot⟩⟩

theorem allChannelsNodup (crateMask : BitVec 32) (slotMasks : Fin 20 → BitVec 32) :
    (allChannels crateMask slotMasks).Nodup := by
  refine List.nodup_flatMap.mpr ⟨fun i _ => channelsOfNodup slotMasks i, ?_⟩
  refine (maskedCratesNodup crateMask).imp fun different => ?_
  intro c mem mem'
  exact different ((channelsOfMem.mp mem).1.symm.trans (channelsOfMem.mp mem').1)

structure Placed (crateMask : BitVec 32) (slotMasks : Fin 20 → BitVec 32) (s : Tuner) : Prop where
  ordered : Ordered s
  crates : ∀ i ∈ s.crates, crateMask.getLsbD i = true
  masked : ∀ c ∈ s.channels, Masked crateMask slotMasks c
  together : ∀ c ∈ s.channels, ∀ d ∈ s.channels, c.1 = d.1
  behind : toCome slotMasks s <:+ allChannels crateMask slotMasks

section Place
variable {crateMask : BitVec 32} {slotMasks : Fin 20 → BitVec 32} {gaveUp : BitVec 32 → Bool}
  {pass : Channel → BitVec 32 → BitVec 32 → ℕ → Turn (BitVec 32) (BitVec 32)} {counts : ℕ → Option (BitVec 32 × BitVec 32)}
  {s t : Tuner}

theorem toComeFirst {c : Channel} {rest : List Channel} (channels : s.channels = c::rest) :
    toCome slotMasks s = c::toCome slotMasks { s with channels := rest } := by
  rw [toCome, channels]
  rfl

theorem toComeEnter {i : Fin 20} {more : List (Fin 20)} (none' : s.channels = []) (crates : s.crates = i::more) :
    toCome slotMasks { s with crates := more, channels := channelsOf slotMasks i } = toCome slotMasks s := by
  rw [toCome, toCome, none', crates, List.flatMap_cons]
  rfl

theorem placedPass (placed : Placed crateMask slotMasks s) (step : Pass slotMasks gaveUp pass counts s t) :
    Placed crateMask slotMasks t := by
  have ordered := orderedPass placed.ordered step
  cases step with
  | @enter i more none' crates =>
    refine ⟨ordered, fun i' mem => placed.crates i' (by rw [crates]; exact .tail _ mem), fun c mem => ?_,
      fun c mem d mem' => ?_, (toComeEnter none' crates).symm ▸ placed.behind⟩
    · obtain ⟨same, slot⟩ := channelsOfMem.mp mem
      have crate := placed.crates c.1 (by rw [crates, same]; exact .head _)
      exact Bool.and_eq_true_iff.mpr ⟨crate, slot⟩
    · exact (channelsOfMem.mp mem).1.trans (channelsOfMem.mp mem').1.symm
  | @skip c rest channels | @leave c rest _ _ _ channels =>
    have within (d : Channel) (mem : d ∈ rest) : d ∈ s.channels := by
      rw [channels]
      exact .tail _ mem
    have behind := placed.behind
    rw [toComeFirst channels] at behind
    exact ⟨ordered, placed.crates, fun d mem => placed.masked d (within d mem),
      fun d mem d' mem' => placed.together d (within d mem) d' (within d' mem'), (List.suffix_cons _ _).trans behind⟩
  | again => exact ⟨ordered, placed.crates, placed.masked, placed.together, placed.behind⟩

theorem placedStart {bench : Bench} {vthr2 : Channel → BitVec 32} :
    Placed crateMask slotMasks ⟨maskedCrates crateMask,[],0,bench,vthr2,0⟩ where
  ordered := orderedStart (maskedCratesNodup crateMask) ⟨rfl, rfl⟩
  crates _ mem := maskedCratesMem.mp mem
  masked := nofun
  together := nofun
  behind := List.suffix_refl _

theorem placedReached {start : Tuner} (placed : Placed crateMask slotMasks start) {n : ℕ}
    (reached : Reaches (channelTurn slotMasks gaveUp pass counts) start n s) : Placed crateMask slotMasks s :=
  reachesInvariant (fun _ s => Placed crateMask slotMasks s) placed
    (fun _ _ _ placed turn => placedPass placed (againPass turn)) reached

theorem comesOnce (placed : Placed crateMask slotMasks s) {c : Channel} {rest : List Channel} (channels : s.channels = c::rest) :
    c ∉ toCome slotMasks { s with channels := rest } := by
  have distinct := placed.behind.sublist.nodup (allChannelsNodup crateMask slotMasks)
  rw [toComeFirst channels] at distinct
  exact (List.nodup_cons.mp distinct).1

end Place

def Crate (crateMask : BitVec 32) (s : Tuner) (i : Fin 20) (_ : Fin 32) : Prop :=
  OnlyCrate crateMask i ∨ ∃ c ∈ s.channels, c.1 = i

/- A pass that leaves the channel at the threshold that it has loaded, or goes on. -/
def TuneKeeps (frequency : Frequency) (zero vthr noise : BitVec 32) (steps : ℕ) : Prop :=
  vthr = 255 ∨ zero.toNat < vthr.toNat ∧
    if (vthr-zero).toNat < 6 then vthr = zero+5 ∧ (steps = 0 ∨ noise.toNat < limit frequency)
    else noise.toNat ≤ tenfoldLimit frequency ∧ (steps = 0 ∨ noisy frequency noise = false)

/- The tuning ends with the channel, and the noisy loop gives all others up. -/
def LastOne (crateMask : BitVec 32) (slotMasks : Fin 20 → BitVec 32) (s : Tuner) (c : Channel) : Prop :=
  toCome slotMasks s = [c] ∧ ∀ d, Masked crateMask slotMasks d → d ≠ c → 250 < (s.currentVthr2 d).toNat

section Tuning
variable {crateMask : BitVec 32} {slotMasks : Fin 20 → BitVec 32} {frequency : Frequency} {vthrZeros : Channel → BitVec 32}
  {counts : ℕ → Option (BitVec 32 × BitVec 32)} {s t : Tuner}

theorem tuneLeft {c : Channel} {vthr noise vthr' : BitVec 32} {steps : ℕ}
    (keeps : TuneKeeps frequency (vthrZeros c) vthr noise steps)
    (last : tuneChannel frequency vthrZeros c vthr noise steps = .stop vthr') : vthr' = vthr := by
  have step := tuneCases frequency vthrZeros c vthr noise steps
  rw [last] at step
  rcases keeps with full | ⟨low, keeps⟩
  · cases step with
    | full => exact full.symm
    | hard inside | harder inside | above inside | back inside | last inside => exact absurd full inside.2
  · cases step with
    | full outside =>
      rcases outside with wrong | full | zero
      · omega
      · exact full.symm
      · rw [zero] at low
        exact absurd low (Nat.not_lt_zero _)
    | hard inside near =>
      rw [if_pos near] at keeps
      exact keeps.1.symm
    | harder inside near loud =>
      rw [if_pos near] at keeps
      exact absurd keeps.2 loud
    | above inside far loud =>
      rw [if_neg far] at keeps
      exact absurd loud (not_lt.mpr keeps.1)
    | back inside far loud =>
      rw [if_neg far] at keeps
      have first : steps = 0 := keeps.2.resolve_right (ne_false_of_eq_true loud)
      exact if_neg (by omega)
    | last => rfl

theorem tuneLeaves {c : Channel} {vthr noise : BitVec 32} {steps : ℕ} (small : vthr.toNat ≤ 255)
    (changes : ¬TuneKeeps frequency (vthrZeros c) vthr noise steps) :
    ∃ vthr', tuneChannel frequency vthrZeros c vthr noise steps = .stop vthr' ∧ vthr' ≠ vthr := by
  have step := tuneCases frequency vthrZeros c vthr noise steps
  generalize tuneChannel frequency vthrZeros c vthr noise steps = turn at step
  simp only [TuneKeeps, not_or, not_and] at changes
  obtain ⟨low, changes⟩ := changes
  cases step with
  | full => exact ⟨_, rfl, Ne.symm low⟩
  | hard inside near quiet =>
    have changes := changes inside.1
    rw [if_pos near] at changes
    exact ⟨_, rfl, fun same => changes ⟨same.symm,quiet⟩⟩
  | harder inside near => exact ⟨_, rfl, by rintro rfl; bv_omega⟩
  | above => exact ⟨_, rfl, by bv_omega⟩
  | back inside far loud most =>
    have changes := changes inside.1
    rw [if_neg far] at changes
    have later : steps > 0 := by
      by_contra first
      exact changes ⟨not_lt.mp most,.inl (by omega)⟩
    exact ⟨_, rfl, by rw [if_pos later]; bv_omega⟩
  | last inside far third most quiet | down inside far more most quiet =>
    have changes := changes inside.1
    rw [if_neg far] at changes
    exact absurd ⟨not_lt.mp most,.inr (Bool.eq_false_of_not_eq_true quiet)⟩ changes

theorem tuneAgain {c : Channel} {vthr noise vthr' : BitVec 32} {steps : ℕ} (small : vthr.toNat ≤ 255)
    (next : tuneChannel frequency vthrZeros c vthr noise steps = .again vthr') : vthr'.toNat ≤ 255 := by
  have step := tuneCases frequency vthrZeros c vthr noise steps
  rw [next] at step
  cases step with
  | down inside far => bv_omega

structure TunePlaced (crateMask : BitVec 32) (slotMasks : Fin 20 → BitVec 32) (s : Tuner) : Prop where
  placed : Placed crateMask slotMasks s
  small : ∀ c ∈ toCome slotMasks s, (s.currentVthr2 c).toNat ≤ 255

theorem tunePlacedPass (before : TunePlaced crateMask slotMasks s)
    (step : Pass slotMasks (fun _ => false) (tuneChannel frequency vthrZeros) counts s t) :
    TunePlaced crateMask slotMasks t := by
  refine ⟨placedPass before.placed step, ?_⟩
  have small := before.small
  cases step with
  | enter none' crates => rwa [toComeEnter none' crates]
  | skip _ spent => exact absurd spent Bool.false_ne_true
  | @again c rest first second vthr channels _ given next =>
    have mem : c ∈ toCome slotMasks s := by rw [toComeFirst channels]; exact .head _
    intro d pending
    change (Function.update s.currentVthr2 c vthr d).toNat ≤ 255
    by_cases same : d = c
    · subst same
      rw [Function.update_self]
      exact tuneAgain (small d mem) next
    · rw [Function.update_of_ne same]
      exact small d pending
  | @leave c rest first second vthr channels _ given last =>
    have fresh := comesOnce before.placed channels
    intro d pending
    have other : d ≠ c := fun same => fresh (same ▸ pending)
    change (Function.update s.currentVthr2 c vthr d).toNat ≤ 255
    rw [Function.update_of_ne other]
    exact small d (by rw [toComeFirst channels]; exact .tail _ pending)

def Finished (crateMask : BitVec 32) (slotMasks : Fin 20 → BitVec 32) (s : Tuner) (c : Channel) : Prop :=
  Masked crateMask slotMasks c ∧ c.1 ∉ s.crates ∧ c ∉ s.channels

structure TuneLoaded (crateMask : BitVec 32) (slotMasks : Fin 20 → BitVec 32) (stale : Option Channel) (s : Tuner) : Prop where
  loaded : Loaded (fun d => Finished crateMask slotMasks s d ∧ d ∉ stale) (Crate crateMask s) s
  last : ∀ x ∈ stale, toCome slotMasks s = [] ∧
    ∀ d, Masked crateMask slotMasks d → d ≠ x → 250 < (s.currentVthr2 d).toNat

theorem finishedEnter {i : Fin 20} {more : List (Fin 20)} (none' : s.channels = []) (crates : s.crates = i::more) {c : Channel}
    (finished : Finished crateMask slotMasks { s with crates := more, channels := channelsOf slotMasks i } c) :
    Finished crateMask slotMasks s c ∧ c.1 ≠ i := by
  obtain ⟨masked, crate, channel⟩ := finished
  have other : c.1 ≠ i := fun same =>
    channel (channelsOfMem.mpr ⟨same, (Bool.and_eq_true_iff.mp masked).2⟩)
  refine ⟨⟨masked, fun mem => ?_, by rw [none']; exact List.not_mem_nil⟩, other⟩
  rw [crates] at mem
  exact (List.mem_cons.mp mem).elim other crate

theorem crateOne (placed : Placed crateMask slotMasks s) {c : Channel} (mem : c ∈ s.channels)
    (within : ∀ d ∈ t.channels, d ∈ s.channels) {i : Fin 20} {k : Fin 32} (crate : Crate crateMask t i k) : i = c.1 := by
  rcases crate with only | ⟨d, mem', rfl⟩
  · exact (only c.1 (Bool.and_eq_true_iff.mp (placed.masked c mem)).1).symm
  · exact placed.together d (within d mem') c mem

theorem nothingStale {stale : Option Channel} (loaded : TuneLoaded crateMask slotMasks stale s) {c : Channel}
    {rest : List Channel} (channels : s.channels = c::rest) : stale = none := by
  cases stale with
  | none => rfl
  | some x =>
    have none' := (loaded.last x rfl).1
    rw [toComeFirst channels] at none'
    contradiction

theorem tuneLoadedPass (before : TunePlaced crateMask slotMasks s) {stale : Option Channel}
    (loads : TuneLoaded crateMask slotMasks stale s)
    (keeps : ∀ c rest first second, s.channels = c::rest → counts s.reads = some (first,second) →
      TuneKeeps frequency (vthrZeros c) (s.currentVthr2 c) (second-first) s.steps ∨ LastOne crateMask slotMasks s c)
    (step : Pass slotMasks (fun _ => false) (tuneChannel frequency vthrZeros) counts s t) :
    ∃ stale', TuneLoaded crateMask slotMasks stale' t := by
  obtain ⟨placed, small⟩ := before
  cases step with
  | @enter i more none' crates =>
    refine ⟨stale, ⟨fun c fix => ?_, fun i' k crate fix => ?_⟩, fun x here => ?_⟩
    · exact loads.loaded.loaded c ⟨(finishedEnter none' crates fix.1).1,fix.2⟩
    · obtain ⟨finished, other⟩ := finishedEnter none' crates fix.1
      rcases crate with only | ⟨c, mem, same⟩
      · exact loads.loaded.table i' k (.inl only) ⟨finished,fix.2⟩
      · exact absurd (same.symm.trans (channelsOfMem.mp mem).1) other
    · rw [toComeEnter none' crates]
      exact loads.last x here
  | skip _ spent => exact absurd spent Bool.false_ne_true
  | @again c rest first second vthr channels _ given next =>
    have mem : c ∈ s.channels := by rw [channels]; exact .head _
    obtain rfl := nothingStale loads channels
    exact ⟨none, loadedPass loads.loaded (fun _ _ => .inr ⟨c, mem, rfl⟩) rfl rfl (fun d finished _ => finished)
      (fun finished => absurd mem finished.1.2.2) fun i k crate => @crateOne crateMask slotMasks s s placed c mem (fun _ mem => mem) i k crate, nofun⟩
  | @leave c rest first second vthr channels _ given last =>
    have mem : c ∈ s.channels := by rw [channels]; exact .head _
    have within (d : Channel) (mem : d ∈ rest) : d ∈ s.channels := by rw [channels]; exact .tail _ mem
    have low := small c (by rw [toComeFirst channels]; exact .head _)
    obtain rfl := nothingStale loads channels
    have others (d : Channel) (crate : d.1 ∉ s.crates) (channel : d ∉ rest) (masked : Masked crateMask slotMasks d)
        (other : d ≠ c) : Finished crateMask slotMasks s d ∧ d ∉ none := by
      refine ⟨⟨masked, crate, fun mem => ?_⟩, nofun⟩
      rw [channels] at mem
      exact (List.mem_cons.mp mem).elim other channel
    -- Either the channel stays as it was loaded, or nothing is counted behind it.
    rcases keeps c rest first second channels given with keeps | ⟨only, spent⟩
    · obtain rfl := tuneLeft keeps last
      exact ⟨none, loadedPass loads.loaded (fun _ _ => .inr ⟨c, mem, rfl⟩) rfl rfl
        (fun d fix other => others d fix.1.2.1 fix.1.2.2 fix.1.1 other) (fun _ => if_pos (by omega))
        fun i k crate => crateOne placed mem within crate, nofun⟩
    · refine ⟨some c, loadedPass loads.loaded (fun _ _ => .inr ⟨c, mem, rfl⟩) rfl rfl
        (fun d fix other => others d fix.1.2.1 fix.1.2.2 fix.1.1 other) (fun fix => absurd rfl fix.2)
        fun i k crate => crateOne placed mem within crate, fun x here => ?_⟩
      obtain rfl := Option.some.inj here
      rw [toComeFirst channels] at only
      refine ⟨List.cons.inj only |>.2, fun d masked other => ?_⟩
      change 250 < (Function.update s.currentVthr2 c vthr d).toNat
      rw [Function.update_of_ne other]
      exact spent d masked other

end Tuning

/- A channel that is counted too often is gone on with. -/
def NoisyKeeps (vthr noise : BitVec 32) (count : ℕ) : Prop := AboveRate noise → count+1 < 5 ∧ (vthr+1).toNat < 200

def NoneCounted (slotMasks : Fin 20 → BitVec 32) (s : Tuner) (c : Channel) : Prop :=
  ∀ d ∈ toCome slotMasks s, d ≠ c → 250 < (s.currentVthr2 d).toNat

def firstCounted (s : Tuner) (channels : List Channel) : Option Channel :=
  channels.find? fun c => (s.currentVthr2 c).toNat ≤ 250

/- What another crate has left in the table is right for this one, too, up to the entry
of the channel that is counted first. -/
def EntriesAgree (crateMask : BitVec 32) (slotMasks : Fin 20 → BitVec 32) (s : Tuner) (i : Fin 20) : Prop :=
  OnlyCrate crateMask i ∨ ∀ c ∈ firstCounted s (channelsOf slotMasks i), ∀ k, k ≠ c.2.2 →
    (slotMasks i).getLsbD (s.bench.slotNums k) = true →
      dacValue (s.bench.dacValues k) = s.currentVthr2 (i,s.bench.slotNums k,k)

def Resting (crateMask : BitVec 32) (slotMasks : Fin 20 → BitVec 32) (s : Tuner) (c : Channel) : Prop :=
  Masked crateMask slotMasks c ∧ ∀ rest, s.channels = c::rest → s.steps = 0

/- The entries that the next load uses besides its own. -/
def Needed (crateMask : BitVec 32) (s : Tuner) (i : Fin 20) (k : Fin 32) : Prop :=
  i ∈ s.crates ∧ OnlyCrate crateMask i ∨ ∃ c ∈ firstCounted s s.channels, c.1 = i ∧ k ≠ c.2.2

structure NoisyLoaded (crateMask : BitVec 32) (slotMasks : Fin 20 → BitVec 32) (stale : Option Channel) (s : Tuner) : Prop where
  placed : Placed crateMask slotMasks s
  low : ∀ c rest, s.channels = c::rest → s.steps ≠ 0 → (s.currentVthr2 c).toNat < 200
  loaded : Loaded (fun d => Resting crateMask slotMasks s d ∧ d ∉ stale) (Needed crateMask s) s
  last : ∀ x ∈ stale, NoneCounted slotMasks s x

section Noisy
variable {crateMask : BitVec 32} {slotMasks : Fin 20 → BitVec 32} {counts : ℕ → Option (BitVec 32 × BitVec 32)} {s t : Tuner}

theorem noisyLeft {vthr noise vthr' : BitVec 32} {count : ℕ} (keeps : NoisyKeeps vthr noise count)
    (last : stepNoisy vthr noise count = .stop vthr') : vthr' = vthr := by
  have step := noisyCases vthr noise count
  rw [last] at step
  cases step with
  | quiet => rfl
  | stuck loud late => exact absurd (keeps loud) late

theorem noisyLeaves {vthr noise : BitVec 32} {count : ℕ} (changes : ¬NoisyKeeps vthr noise count) :
    stepNoisy vthr noise count = .stop (vthr+1) := by
  simp only [NoisyKeeps, not_forall] at changes
  obtain ⟨loud, late⟩ := changes
  unfold stepNoisy
  rw [if_pos loud]
  by_cases many : count+1 ≥ 5
  · rw [if_pos many]
  · rw [if_neg many, if_pos (by omega)]

theorem noisyAgain {vthr noise vthr' : BitVec 32} {count : ℕ} (next : stepNoisy vthr noise count = .again vthr') :
    vthr'.toNat < 200 := by
  have step := noisyCases vthr noise count
  rw [next] at step
  cases step with
  | up few low => exact low

theorem firstFound {c : Channel} {rest : List Channel} (channels : s.channels = c::rest)
    (under : (s.currentVthr2 c).toNat ≤ 250) : firstCounted s s.channels = some c := by
  simp [firstCounted, channels, under]

theorem neededOwn {c : Channel} {rest : List Channel} (channels : s.channels = c::rest)
    (under : (s.currentVthr2 c).toNat ≤ 250) (k : Fin 32) (other : k ≠ c.2.2) : Needed crateMask s c.1 k :=
  .inr ⟨c, firstFound channels under, rfl, other⟩

theorem neededOne (placed : Placed crateMask slotMasks s) {c : Channel} (mem : c ∈ s.channels)
    (within : ∀ d ∈ t.channels, d ∈ s.channels) {i : Fin 20} {k : Fin 32} (needed : Needed crateMask t i k) : i = c.1 := by
  rcases needed with ⟨-, only⟩ | ⟨d, first, rfl, -⟩
  · exact (only c.1 (Bool.and_eq_true_iff.mp (placed.masked c mem)).1).symm
  · exact placed.together d (within d (List.mem_of_find?_eq_some first)) c mem

theorem restingOther {c d : Channel} {rest : List Channel} (channels : s.channels = c::rest) (other : d ≠ c)
    (masked : Masked crateMask slotMasks d) : Resting crateMask slotMasks s d :=
  ⟨masked, fun _ split' => absurd (List.cons.inj (channels.symm.trans split')).1.symm other⟩

/- A channel that is counted is the stale one, if there is one. -/
theorem staleOwn {stale : Option Channel} (loaded : NoisyLoaded crateMask slotMasks stale s) {c : Channel}
    {rest : List Channel} (channels : s.channels = c::rest) (under : (s.currentVthr2 c).toNat ≤ 250) {d : Channel}
    (other : d ≠ c) : d ∉ stale := by
  intro here
  have mem : c ∈ toCome slotMasks s := by rw [toComeFirst channels]; exact .head _
  have later := loaded.last d here c mem (Ne.symm other)
  omega

theorem noisyRead {stale : Option Channel} (loaded : NoisyLoaded crateMask slotMasks stale s) {c : Channel}
    {rest : List Channel} (channels : s.channels = c::rest) (under : (s.currentVthr2 c).toNat ≤ 250) {d : Channel}
    (masked : Masked crateMask slotMasks d) : (s.load c).bench.dacs d = s.currentVthr2 d := by
  by_cases own : d = c
  · subst own
    rw [loadOwn, dacValue, if_pos (by omega)]
  · exact loadedRead loaded.loaded (neededOwn channels under) ⟨restingOther channels own masked,staleOwn loaded channels under own⟩ own

section Passes
variable {stale : Option Channel} (loaded : NoisyLoaded crateMask slotMasks stale s)

include loaded

theorem noisyEntered {i : Fin 20} {more : List (Fin 20)} (none' : s.channels = []) (crates : s.crates = i::more)
    (agree : EntriesAgree crateMask slotMasks s i)
    (placed : Placed crateMask slotMasks { s with crates := more, channels := channelsOf slotMasks i }) :
    NoisyLoaded crateMask slotMasks stale { s with crates := more, channels := channelsOf slotMasks i } := by
  have resting {c : Channel} (masked : Masked crateMask slotMasks c) : Resting crateMask slotMasks s c :=
    ⟨masked, fun rest channels => by rw [none'] at channels; contradiction⟩
  have here : i ∈ s.crates := by rw [crates]; exact .head _
  refine ⟨placed, fun _ _ _ some' => absurd (loaded.placed.ordered.steps none') some',
    ⟨fun c fix => loaded.loaded.loaded c ⟨resting fix.1.1,fix.2⟩, fun i' k needed fix => ?_⟩, fun x mem => ?_⟩
  · rcases needed with ⟨mem, only⟩ | ⟨c, first, rfl, other⟩
    · exact loaded.loaded.table i' k (.inl ⟨by rw [crates]; exact .tail _ mem,only⟩) ⟨resting fix.1.1,fix.2⟩
    · have first : c ∈ firstCounted s (channelsOf slotMasks i) := first
      obtain rfl : i = c.1 := (channelsOfMem.mp (List.mem_of_find?_eq_some first)).1.symm
      -- The entries were left by another crate, unless there is only this one.
      rcases agree with only | agree
      · exact loaded.loaded.table c.1 k (.inl ⟨here,only⟩) ⟨resting fix.1.1,fix.2⟩
      · exact agree c first k other (Bool.and_eq_true_iff.mp fix.1.1).2
  · intro d mem' other
    rw [toComeEnter none' crates] at mem'
    exact loaded.last x mem d mem' other

theorem noisySkipped {c : Channel} {rest : List Channel} (channels : s.channels = c::rest)
    (spent : (s.currentVthr2 c).toNat > 250) (placed : Placed crateMask slotMasks { s with channels := rest, steps := 0 }) :
    NoisyLoaded crateMask slotMasks stale { s with channels := rest, steps := 0 } := by
  refine ⟨placed, fun _ _ _ some' => absurd rfl some', loadedSame loaded.loaded ⟨rfl, rfl⟩
    (fun d fix => ⟨⟨fix.1.1, fun rest' split' => ?_⟩,fix.2⟩) fun i k needed => ?_,
    fun x mem d mem' other => loaded.last x mem d (by rw [toComeFirst channels]; exact .tail _ mem') other⟩
  · by_contra some'
    rw [channels] at split'
    cases split'
    have := loaded.low c rest channels some'
    omega
  · refine needed.imp id fun ⟨d, first, rest⟩ => ⟨d, ?_, rest⟩
    rw [firstCounted, channels, List.find?_cons_of_neg (by simpa using spent)]
    exact first

theorem noisyRaised {c : Channel} {rest : List Channel} {noise vthr : BitVec 32} (channels : s.channels = c::rest)
    (under : (s.currentVthr2 c).toNat ≤ 250) (next : stepNoisy (s.currentVthr2 c) noise s.steps = .again vthr)
    (placed : Placed crateMask slotMasks
      { Tuner.counted s c with currentVthr2 := Function.update s.currentVthr2 c vthr, steps := s.steps+1 }) :
    NoisyLoaded crateMask slotMasks stale
      { Tuner.counted s c with currentVthr2 := Function.update s.currentVthr2 c vthr, steps := s.steps+1 } := by
  have mem : c ∈ s.channels := by rw [channels]; exact .head _
  refine ⟨placed, fun d rest' split' _ => ?_, loadedPass loaded.loaded (neededOwn channels under) rfl rfl
    (fun d fix other => ⟨restingOther channels other fix.1.1,fix.2⟩)
    (fun fix => absurd (fix.1.2 rest channels) (Nat.succ_ne_zero _))
    fun i k needed => neededOne loaded.placed mem (by exact fun _ mem => mem) needed, fun x here d mem' other => ?_⟩
  · have split' : s.channels = d::rest' := split'
    rw [channels] at split'
    cases split'
    change (Function.update s.currentVthr2 c vthr c).toNat < 200
    rw [Function.update_self]
    exact noisyAgain next
  · have own : c = x := by
      by_contra apart
      exact staleOwn loaded channels under (Ne.symm apart) here
    change 250 < (Function.update s.currentVthr2 c vthr d).toNat
    rw [Function.update_of_ne (own ▸ other)]
    exact loaded.last x here d mem' other

/- The channel is stale from here on where its threshold has changed. -/
theorem noisyLeaving {c : Channel} {rest : List Channel} {noise vthr : BitVec 32} (channels : s.channels = c::rest)
    (under : (s.currentVthr2 c).toNat ≤ 250) (last : stepNoisy (s.currentVthr2 c) noise s.steps = .stop vthr)
    (keeps : NoisyKeeps (s.currentVthr2 c) noise s.steps ∨ NoneCounted slotMasks s c)
    (placed : Placed crateMask slotMasks
      { Tuner.counted s c with currentVthr2 := Function.update s.currentVthr2 c vthr, channels := rest, steps := 0 }) :
    ∃ stale', NoisyLoaded crateMask slotMasks stale'
      { Tuner.counted s c with currentVthr2 := Function.update s.currentVthr2 c vthr, channels := rest, steps := 0 } := by
  have mem : c ∈ s.channels := by rw [channels]; exact .head _
  have within (d : Channel) (mem : d ∈ rest) : d ∈ s.channels := by rw [channels]; exact .tail _ mem
  have others {d : Channel} (masked : Masked crateMask slotMasks d) (other : d ≠ c) :
      Resting crateMask slotMasks s d ∧ d ∉ stale :=
    ⟨restingOther channels other masked,staleOwn loaded channels under other⟩
  rcases keeps with keeps | spent
  · obtain rfl := noisyLeft keeps last
    exact ⟨none, placed, fun _ _ _ some' => absurd rfl some', loadedPass loaded.loaded (neededOwn channels under) rfl rfl
      (fun d fix other => others fix.1.1 other) (fun _ => if_pos (by omega))
      fun i k needed => neededOne loaded.placed mem within needed, nofun⟩
  · refine ⟨some c, placed, fun _ _ _ some' => absurd rfl some', loadedPass loaded.loaded (neededOwn channels under) rfl rfl
      (fun d fix other => others fix.1.1 other) (fun fix => absurd rfl fix.2)
      fun i k needed => neededOne loaded.placed mem within needed, fun x here d mem' other => ?_⟩
    obtain rfl := Option.some.inj here
    change 250 < (Function.update s.currentVthr2 c vthr d).toNat
    rw [Function.update_of_ne other]
    exact spent d (by rw [toComeFirst channels]; exact .tail _ mem') other

theorem noisyLoadedPass
    (agree : ∀ i more, s.channels = [] → s.crates = i::more → EntriesAgree crateMask slotMasks s i)
    (keeps : ∀ c rest first second, s.channels = c::rest → (s.currentVthr2 c).toNat ≤ 250 →
      counts s.reads = some (first,second) →
        NoisyKeeps (s.currentVthr2 c) (second-first) s.steps ∨ NoneCounted slotMasks s c)
    (step : Pass slotMasks (fun vthr => vthr.toNat > 250) (fun _ => stepNoisy) counts s t) :
    ∃ stale', NoisyLoaded crateMask slotMasks stale' t := by
  have placed := placedPass loaded.placed step
  cases step with
  | @enter i more none' crates => exact ⟨stale, noisyEntered loaded none' crates (agree i more none' crates) placed⟩
  | skip channels spent => exact ⟨stale, noisySkipped loaded channels (of_decide_eq_true spent) placed⟩
  | again channels under given next =>
    have under := of_decide_eq_false under
    exact ⟨stale, noisyRaised loaded channels (by omega) next placed⟩
  | @leave c rest first second vthr channels under given last =>
    have under := of_decide_eq_false under
    have under : (s.currentVthr2 c).toNat ≤ 250 := by omega
    exact noisyLeaving loaded channels under last (keeps c rest first second channels under given) placed

end Passes

end Noisy

end PennDaq.NoiseLoads
