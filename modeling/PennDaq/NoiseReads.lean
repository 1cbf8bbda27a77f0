import PennDaq.NoiseLoads

/-! Which thresholds are in the DACs whenever `FindNoise` counts a single channel: in
which runs all finished channels have theirs. -/
namespace PennDaq.NoiseReads
open Lib.Loop
open FindNoise
open NoiseChannels
open NoiseSearch
open NoiseLoads

section Runs
variable (crateMask : BitVec 32) (slotMasks : Fin 20 → BitVec 32) (frequency : Frequency) (vthrZeros : Channel → BitVec 32)
  (counts : ℕ → Option (BitVec 32 × BitVec 32))

def TuneRunKeeps (s : Search) : Prop :=
  ∀ n t, Reaches (tuneTurn slotMasks frequency vthrZeros counts) (tuneStart crateMask slotMasks s) n t →
    ∀ c rest first second, t.channels = c::rest → counts t.reads = some (first,second) →
      TuneKeeps frequency (vthrZeros c) (t.currentVthr2 c) (second-first) t.steps ∨ LastOne crateMask slotMasks t c

def NoisyRunKeeps (t : Tuner) : Prop :=
  ∀ n u, Reaches (noisyTurn slotMasks counts) (noisyStart crateMask t) n u →
    (∀ i more, u.channels = [] → u.crates = i::more → EntriesAgree crateMask slotMasks u i) ∧
    ∀ c rest first second, u.channels = c::rest → (u.currentVthr2 c).toNat ≤ 250 → counts u.reads = some (first,second) →
      NoisyKeeps (u.currentVthr2 c) (second-first) u.steps ∨ NoneCounted slotMasks u c

/- Each time a count is read, what is in the DACs. -/
def TuneReads (s : Search) : Prop :=
  ∀ n t, Reaches (tuneTurn slotMasks frequency vthrZeros counts) (tuneStart crateMask slotMasks s) n t →
    ∀ c rest, t.channels = c::rest → ∀ d, Finished crateMask slotMasks t d → (t.load c).bench.dacs d = t.currentVthr2 d

def NoisyReads (t : Tuner) : Prop :=
  ∀ n u, Reaches (noisyTurn slotMasks counts) (noisyStart crateMask t) n u →
    ∀ c rest, u.channels = c::rest → (u.currentVthr2 c).toNat ≤ 250 →
      ∀ d, Masked crateMask slotMasks d → (u.load c).bench.dacs d = u.currentVthr2 d

end Runs

section Comes
variable {slotMasks : Fin 20 → BitVec 32} {gaveUp : BitVec 32 → Bool}
  {pass : Channel → BitVec 32 → BitVec 32 → ℕ → Turn (BitVec 32) (BitVec 32)} {counts : ℕ → Option (BitVec 32 × BitVec 32)}

theorem goesOver {before rest : List Channel} {s : Tuner} (channels : s.channels = before ++ rest)
    (spent : ∀ c ∈ before, gaveUp (s.currentVthr2 c) = true) :
    ∃ n t, Reaches (channelTurn slotMasks gaveUp pass counts) s n t ∧ t.bench = s.bench ∧
      t.currentVthr2 = s.currentVthr2 ∧ t.channels = rest ∧ t.crates = s.crates := by
  induction before generalizing s with
  | nil => exact ⟨0, s, .start, rfl, rfl, channels, rfl⟩
  | cons c later ih =>
    rw [List.forall_mem_cons] at spent
    obtain ⟨n, t, reached, same⟩ := @ih { s with channels := later ++ rest, steps := 0 } rfl spent.2
    have skips : channelTurn slotMasks gaveUp pass counts s = .again { s with channels := later ++ rest, steps := 0 } :=
      skipTurn channels spent.1
    obtain ⟨k, all⟩ := reachesTrans (.again .start skips) reached
    exact ⟨k, t, all, same⟩

theorem comesTo {s : Tuner} {c : Channel}
    (first : (toCome slotMasks s).find? (fun c => !gaveUp (s.currentVthr2 c)) = some c) :
    ∃ n t rest, Reaches (channelTurn slotMasks gaveUp pass counts) s n t ∧ t.bench = s.bench ∧
      t.currentVthr2 = s.currentVthr2 ∧ t.channels = c::rest ∧ toCome slotMasks t <:+ toCome slotMasks s := by
  induction crates : s.crates generalizing s with
  | nil =>
    rw [toCome, crates, List.flatMap_nil, List.append_nil] at first
    obtain ⟨-, before, rest, channels, spent⟩ := List.find?_eq_some_iff_append.mp first
    obtain ⟨n, t, reached, bench, values, here, later⟩ := goesOver channels (by simpa using spent)
    refine ⟨n, t, rest, reached, bench, values, here, before, ?_⟩
    rw [toCome, toCome, here, later, channels, List.append_assoc]
  | cons i more enters =>
    cases found : s.channels.find? (fun c => !gaveUp (s.currentVthr2 c)) with
    | some d =>
      rw [toCome, List.find?_append, found] at first
      obtain rfl := Option.some.inj first
      obtain ⟨-, before, rest, channels, spent⟩ := List.find?_eq_some_iff_append.mp found
      obtain ⟨n, t, reached, bench, values, here, later⟩ := goesOver channels (by simpa using spent)
      refine ⟨n, t, rest, reached, bench, values, here, before, ?_⟩
      rw [toCome, toCome, here, later, channels, List.append_assoc]
    | none =>
      have spent := List.find?_eq_none.mp found
      obtain ⟨n, t, reached, bench, values, here, later⟩ :=
        @goesOver slotMasks gaveUp pass counts s.channels [] s (List.append_nil _).symm (by simpa using spent)
      have first' : (toCome slotMasks { t with crates := more, channels := channelsOf slotMasks i }).find?
          (fun c => !gaveUp (t.currentVthr2 c)) = some c := by
        rw [toComeEnter here (later.trans crates), values, toCome, here, later, List.nil_append]
        rwa [toCome, List.find?_append, found, Option.none_or] at first
      obtain ⟨n', u, rest, reached', bench', values', here', behind⟩ :=
        @enters { t with crates := more, channels := channelsOf slotMasks i } first' rfl
      obtain ⟨k, all⟩ := reachesTrans (.again reached (enterTurn here (later.trans crates))) reached'
      refine ⟨k, u, rest, all, bench'.trans bench, values'.trans values, here', behind.trans ?_⟩
      rw [toComeEnter here (later.trans crates), toCome, here, later]
      exact List.suffix_append _ _

theorem nothingComes {s : Tuner} (none' : toCome slotMasks s = []) :
    ∃ t, Ends (channelTurn slotMasks gaveUp pass counts) s (some t) ∧ t.bench = s.bench ∧ t.currentVthr2 = s.currentVthr2 := by
  induction crates : s.crates generalizing s with
  | nil =>
    obtain ⟨channels, -⟩ := List.append_eq_nil_iff.mp none'
    have stops : channelTurn slotMasks gaveUp pass counts s = .stop (some s) := by
      unfold channelTurn
      simp only [channels, crates]
    exact ⟨s, (endsStop stops _).mpr rfl, rfl, rfl⟩
  | cons i more enters =>
    obtain ⟨channels, -⟩ := List.append_eq_nil_iff.mp none'
    obtain ⟨t, ends, same⟩ := enters ((toComeEnter channels crates).trans none') rfl
    exact ⟨t, (endsAgain (enterTurn channels crates) _).mpr ends, same⟩

end Comes

/- The noisy loop comes to the first channel that it has not given up. -/
theorem comesUnder {slotMasks : Fin 20 → BitVec 32} {counts : ℕ → Option (BitVec 32 × BitVec 32)} {s : Tuner} {e : Channel}
    (first : (toCome slotMasks s).find? (fun c => (s.currentVthr2 c).toNat ≤ 250) = some e) :
    ∃ n v rest, Reaches (noisyTurn slotMasks counts) s n v ∧ v.bench = s.bench ∧ v.currentVthr2 = s.currentVthr2 ∧
      v.channels = e::rest ∧ (v.currentVthr2 e).toNat ≤ 250 := by
  have same : (fun c : Channel => !decide ((s.currentVthr2 c).toNat > 250)) = fun c => decide ((s.currentVthr2 c).toNat ≤ 250) := by
    funext c
    rw [← decide_not, decide_eq_decide]
    exact not_lt
  obtain ⟨n, v, rest, reached, bench, values, here, -⟩ := @comesTo slotMasks (fun vthr => decide (vthr.toNat > 250))
    (fun _ => stepNoisy) counts s e (by rw [same]; exact first)
  refine ⟨n, v, rest, reached, bench, values, here, ?_⟩
  rw [values]
  simpa using List.find?_some first

/- A channel that was changed after its load stays as it was loaded while another is counted. -/
theorem staleRead {s u : Tuner} {c d : Channel} {vthr : BitVec 32} (bench : u.bench = (s.load c).bench)
    (values : u.currentVthr2 = Function.update s.currentVthr2 c vthr) (low : (s.currentVthr2 c).toNat ≤ 255)
    (changed : vthr ≠ s.currentVthr2 c) (other : d ≠ c) : (u.load d).bench.dacs c ≠ u.currentVthr2 c := by
  have held : (u.load d).bench.dacs c = dacValue (s.currentVthr2 c) := by
    refine loadKeeps u d (Ne.symm other) (by rw [bench, loadOwn]) fun _ _ _ => ?_
    rw [bench]
    exact congrArg dacValue (Function.update_self ..)
  rw [held, dacValue, if_pos (by omega), values, Function.update_self]
  exact Ne.symm changed

section Runs
variable {crateMask : BitVec 32} {slotMasks : Fin 20 → BitVec 32} {frequency : Frequency} {vthrZeros : Channel → BitVec 32}
  {counts : ℕ → Option (BitVec 32 × BitVec 32)}

theorem tunePlacedReached {s : Search} (small : ∀ c, Masked crateMask slotMasks c → (progressOf s c).vthr.toNat ≤ 255)
    {n : ℕ} {t : Tuner}
    (reached : Reaches (tuneTurn slotMasks frequency vthrZeros counts) (tuneStart crateMask slotMasks s) n t) :
    TunePlaced crateMask slotMasks t := by
  refine reachesInvariant (fun _ t => TunePlaced crateMask slotMasks t) ⟨placedStart, fun c mem => ?_⟩
    (fun _ _ _ before turn => tunePlacedPass before (againPass turn)) reached
  have masked : Masked crateMask slotMasks c := allChannelsMem.mp mem
  change (copied crateMask slotMasks s c).toNat ≤ 255
  have value : copied crateMask slotMasks s c = (progressOf s c).vthr := if_pos masked
  rw [value]
  exact small c masked

theorem tuneReached {s : Search} (small : ∀ c, Masked crateMask slotMasks c → (progressOf s c).vthr.toNat ≤ 255)
    (keeps : TuneRunKeeps crateMask slotMasks frequency vthrZeros counts s) {n : ℕ} {t : Tuner}
    (reached : Reaches (tuneTurn slotMasks frequency vthrZeros counts) (tuneStart crateMask slotMasks s) n t) :
    ∃ stale, TuneLoaded crateMask slotMasks stale t := by
  have start : TuneLoaded crateMask slotMasks none (tuneStart crateMask slotMasks s) := by
    have unfinished {c : Channel} (finished : Finished crateMask slotMasks (tuneStart crateMask slotMasks s) c) : False :=
      finished.2.1 (maskedCratesMem.mpr (Bool.and_eq_true_iff.mp finished.1).1)
    exact ⟨⟨fun c fix => (unfinished fix.1).elim, fun i k _ fix => (unfinished fix.1).elim⟩, nofun⟩
  have both := reachesInvariant (fun n t => Reaches (tuneTurn slotMasks frequency vthrZeros counts)
    (tuneStart crateMask slotMasks s) n t ∧ ∃ stale, TuneLoaded crateMask slotMasks stale t) ⟨.start, none, start⟩
    (fun n t u both turn => ?_) reached
  · exact both.2
  · obtain ⟨reached, stale, loaded⟩ := both
    exact ⟨.again reached turn, tuneLoadedPass (tunePlacedReached small reached) loaded (keeps n t reached) (againPass turn)⟩

theorem noisyReached {t : Tuner} {stale : Option Channel} (loaded : TuneLoaded crateMask slotMasks stale t)
    (spent : t.channels = [] ∧ t.crates = []) (keeps : NoisyRunKeeps crateMask slotMasks counts t) {n : ℕ} {u : Tuner}
    (reached : Reaches (noisyTurn slotMasks counts) (noisyStart crateMask t) n u) :
    ∃ stale, NoisyLoaded crateMask slotMasks stale u := by
  have start : NoisyLoaded crateMask slotMasks stale (noisyStart crateMask t) := by
    have finished {c : Channel} (masked : Masked crateMask slotMasks c) : Finished crateMask slotMasks t c :=
      ⟨masked, by rw [spent.2]; exact List.not_mem_nil, by rw [spent.1]; exact List.not_mem_nil⟩
    refine ⟨placedStart, nofun, loadedSame loaded.loaded ⟨rfl, rfl⟩ (fun c fix => ⟨finished fix.1.1,fix.2⟩) fun i k needed => ?_,
      fun x here d mem other => (loaded.last x here).2 d (allChannelsMem.mp mem) other⟩
    rcases needed with ⟨-, only⟩ | ⟨c, first, -⟩
    · exact .inl only
    · contradiction
  have both := reachesInvariant (fun n u => Reaches (noisyTurn slotMasks counts) (noisyStart crateMask t) n u ∧
    ∃ stale, NoisyLoaded crateMask slotMasks stale u) ⟨.start, stale, start⟩ (fun n u v both turn => ?_) reached
  · exact both.2
  · obtain ⟨reached, stale, loaded⟩ := both
    exact ⟨.again reached turn, noisyLoadedPass loaded (keeps n u reached).1 (keeps n u reached).2 (againPass turn)⟩

section Tuned
variable {t : Tuner} {c : Channel} {rest : List Channel} {vthr : BitVec 32}

abbrev passedOn (t : Tuner) (c : Channel) (vthr : BitVec 32) (rest : List Channel) : Tuner :=
  { Tuner.counted t c with currentVthr2 := Function.update t.currentVthr2 c vthr, channels := rest, steps := 0 }

theorem passedOther {d : Channel} (other : d ≠ c) : (passedOn t c vthr rest).currentVthr2 d = t.currentVthr2 d :=
  Function.update_of_ne other ..

theorem tuneCountedLater {s : Search} {n : ℕ} (masked : Masked crateMask slotMasks c) (low : (t.currentVthr2 c).toNat ≤ 255)
    (changed : vthr ≠ t.currentVthr2 c) (reads : TuneReads crateMask slotMasks frequency vthrZeros counts s)
    (reached : Reaches (tuneTurn slotMasks frequency vthrZeros counts) (tuneStart crateMask slotMasks s) n (passedOn t c vthr rest))
    (fresh : c ∉ toCome slotMasks (passedOn t c vthr rest)) : toCome slotMasks (passedOn t c vthr rest) = [] := by
  cases coming : toCome slotMasks (passedOn t c vthr rest) with
  | nil => rfl
  | cons d later =>
    obtain ⟨n', v, rest', reached', bench, values, here, behind⟩ := @comesTo slotMasks (fun _ => false)
      (tuneChannel frequency vthrZeros) counts (passedOn t c vthr rest) d (by rw [coming]; rfl)
    have apart : d ≠ c := fun same => fresh (by rw [coming, same]; exact .head _)
    obtain ⟨k, all⟩ := reachesTrans reached reached'
    have gone : c ∉ toCome slotMasks v := fun mem => fresh (behind.mem mem)
    have finished : Finished crateMask slotMasks v c := by
      refine ⟨masked, fun crate => gone ?_, fun mem => gone (List.mem_append_left _ mem)⟩
      exact List.mem_append_right _ (List.mem_flatMap.mpr ⟨c.1,crate,channelsOfMem.mpr ⟨rfl,(Bool.and_eq_true_iff.mp masked).2⟩⟩)
    exact absurd (reads k v all d rest' here c finished) (staleRead bench values low changed apart)

/- The channel is the last of all, and any other that is counted comes before it. -/
theorem tuneLastAlone {counts' : ℕ → Option (BitVec 32 × BitVec 32)} {u : Tuner} (placed : Placed crateMask slotMasks t)
    (low : (t.currentVthr2 c).toNat ≤ 255) (changed : vthr ≠ t.currentVthr2 c) (last : toCome slotMasks t = [c])
    (bench : u.bench = (passedOn t c vthr rest).bench) (values : u.currentVthr2 = (passedOn t c vthr rest).currentVthr2)
    (masked : Masked crateMask slotMasks c) (reads : NoisyReads crateMask slotMasks counts' u) :
    ∀ d, Masked crateMask slotMasks d → d ≠ c → 250 < (t.currentVthr2 d).toNat := by
  intro d masked' other
  by_contra under
  -- The noisy loop starts again with the channels before it.
  obtain ⟨before, split⟩ := placed.behind
  rw [last] at split
  have distinct := allChannelsNodup crateMask slotMasks
  have found : ∃ e, before.find? (fun c => ((noisyStart crateMask u).currentVthr2 c).toNat ≤ 250) = some e := by
    rw [← Option.isSome_iff_exists, List.find?_isSome]
    have mem := allChannelsMem.mpr masked'
    rw [← split, List.mem_append, List.mem_singleton] at mem
    refine ⟨d, mem.resolve_right other, decide_eq_true ?_⟩
    change (u.currentVthr2 d).toNat ≤ 250
    rw [values, passedOther other]
    exact not_lt.mp under
  obtain ⟨e, found⟩ := found
  have apart : e ≠ c := by
    rintro rfl
    rw [← split] at distinct
    exact (List.nodup_append.mp distinct).2.2 e (List.mem_of_find?_eq_some found) e (List.mem_singleton_self e) rfl
  obtain ⟨n, v, rest', reached, bench', values', here, under'⟩ := @comesUnder slotMasks counts' (noisyStart crateMask u) e (by
    have all : toCome slotMasks (noisyStart crateMask u) = before ++ [c] := split.symm
    rw [all, List.find?_append, found]
    rfl)
  exact staleRead (bench'.trans bench) (values'.trans values) low changed apart (reads n v reached e rest' here under' c masked)

end Tuned

theorem tuneChanged {s : Search} (small : ∀ c, Masked crateMask slotMasks c → (progressOf s c).vthr.toNat ≤ 255)
    (reads : TuneReads crateMask slotMasks frequency vthrZeros counts s) {counts' : ℕ → Option (BitVec 32 × BitVec 32)}
    (noisyReads : ∀ t, Ends (tuneTurn slotMasks frequency vthrZeros counts) (tuneStart crateMask slotMasks s) (some t) →
      NoisyReads crateMask slotMasks counts' t) :
    TuneRunKeeps crateMask slotMasks frequency vthrZeros counts s := by
  intro n t reached c rest first second channels given
  refine or_iff_not_imp_left.mpr fun changes => ?_
  have placed := tunePlacedReached small reached
  have come := @toComeFirst slotMasks t c rest channels
  have masked := placed.placed.masked c (by rw [channels]; exact .head _)
  have low := placed.small c (by rw [come]; exact .head _)
  obtain ⟨vthr, left, changed⟩ := tuneLeaves low changes
  have turn : tuneTurn slotMasks frequency vthrZeros counts t = .again (passedOn t c vthr rest) := leaveTurn channels rfl given left
  have none' := tuneCountedLater masked low changed reads (.again reached turn) (comesOnce placed.placed channels)
  have last : toCome slotMasks t = [c] := come.trans (congrArg _ none')
  obtain ⟨u, ends, bench, values⟩ :=
    @nothingComes slotMasks (fun _ => false) (tuneChannel frequency vthrZeros) counts (passedOn t c vthr rest) none'
  exact ⟨last, tuneLastAlone placed.placed low changed last bench values masked (noisyReads u (reachesEnds (.again reached turn) ends))⟩

section Noisy
variable {t u : Tuner} {n : ℕ} (reads : NoisyReads crateMask slotMasks counts t)
  (reached : Reaches (noisyTurn slotMasks counts) (noisyStart crateMask t) n u)

include reached

theorem noisyPlaced : Placed crateMask slotMasks u :=
  @placedReached crateMask slotMasks (fun vthr => decide (vthr.toNat > 250)) (fun _ => stepNoisy) counts u _ placedStart n reached

include reads

theorem noisyAgrees {i : Fin 20} {more : List (Fin 20)} (none' : u.channels = []) (crates : u.crates = i::more) :
    EntriesAgree crateMask slotMasks u i := by
  refine .inr fun c first k other slot => ?_
  have first : (channelsOf slotMasks i).find? (fun c => decide ((u.currentVthr2 c).toNat ≤ 250)) = some c := first
  have enters : noisyTurn slotMasks counts u = .again { u with crates := more, channels := channelsOf slotMasks i } :=
    enterTurn none' crates
  obtain ⟨n', v, rest, reached', bench, values, here, under⟩ := @comesUnder slotMasks counts
    { u with crates := more, channels := channelsOf slotMasks i } c (by rw [toCome, List.find?_append, first]; rfl)
  obtain ⟨k', all⟩ := reachesTrans (.again reached enters) reached'
  obtain rfl : i = c.1 := (channelsOfMem.mp (List.mem_of_find?_eq_some first)).1.symm
  have masked : Masked crateMask slotMasks (c.1,u.bench.slotNums k,k) :=
    Bool.and_eq_true_iff.mpr ⟨(noisyPlaced reached).crates c.1 (by rw [crates]; exact .head _), slot⟩
  have read := reads k' v all c rest here under _ masked
  have loaded := loadEntry v c other
  rw [bench] at loaded
  rwa [loaded, values] at read

theorem noisyAlone {c : Channel} {rest : List Channel} {first second : BitVec 32} (channels : u.channels = c::rest)
    (under : (u.currentVthr2 c).toNat ≤ 250) (given : counts u.reads = some (first,second))
    (changes : ¬NoisyKeeps (u.currentVthr2 c) (second-first) u.steps) : NoneCounted slotMasks u c := by
  intro d mem other
  by_contra beyond
  have placed := noisyPlaced reached
  have turn : noisyTurn slotMasks counts u = .again (passedOn u c (u.currentVthr2 c + 1) rest) :=
    leaveTurn channels (decide_eq_false (by omega)) given (noisyLeaves changes)
  have fresh : c ∉ toCome slotMasks (passedOn u c (u.currentVthr2 c + 1) rest) := comesOnce placed channels
  have found : ∃ e, (toCome slotMasks (passedOn u c (u.currentVthr2 c + 1) rest)).find?
      (fun d => ((passedOn u c (u.currentVthr2 c + 1) rest).currentVthr2 d).toNat ≤ 250) = some e := by
    rw [← Option.isSome_iff_exists, List.find?_isSome]
    rw [toComeFirst channels] at mem
    refine ⟨d, (List.mem_cons.mp mem).resolve_left other, decide_eq_true ?_⟩
    rw [passedOther other]
    exact not_lt.mp beyond
  obtain ⟨e, found⟩ := found
  have apart : e ≠ c := fun same => fresh (same ▸ List.mem_of_find?_eq_some found)
  obtain ⟨n', v, rest', reached', bench, values, here, under'⟩ := @comesUnder slotMasks counts _ e found
  obtain ⟨k, all⟩ := reachesTrans (.again reached turn) reached'
  refine staleRead bench values (by omega) (fun same => ?_) apart
    (reads k v all e rest' here under' c (placed.masked c (by rw [channels]; exact .head _)))
  bv_omega

end Noisy

theorem noisyChanged {t : Tuner} (reads : NoisyReads crateMask slotMasks counts t) :
    NoisyRunKeeps crateMask slotMasks counts t := fun _ _ reached =>
  ⟨fun _ _ none' crates => noisyAgrees reads reached none' crates, fun _ _ _ _ channels under given =>
    or_iff_not_imp_left.mpr fun changes => noisyAlone reads reached channels under given changes⟩

/- Every count is read with all finished channels at their thresholds if and only if every
pass keeps what it has loaded, as long as another channel is counted behind it. -/
theorem loadsKept (crateMask : BitVec 32) (slotMasks : Fin 20 → BitVec 32) (frequency : Frequency)
    (vthrZeros : Channel → BitVec 32) (hardware : Hardware) (bench : Bench) (s : Search)
    (search : Ends (mainTurn crateMask slotMasks frequency hardware.main) (searchStart vthrZeros bench) (some s)) :
    (TuneReads crateMask slotMasks frequency vthrZeros hardware.tuning s ∧
      ∀ t, Ends (tuneTurn slotMasks frequency vthrZeros hardware.tuning) (tuneStart crateMask slotMasks s) (some t) →
        NoisyReads crateMask slotMasks hardware.noisy t) ↔
    TuneRunKeeps crateMask slotMasks frequency vthrZeros hardware.tuning s ∧
      ∀ t, Ends (tuneTurn slotMasks frequency vthrZeros hardware.tuning) (tuneStart crateMask slotMasks s) (some t) →
        NoisyRunKeeps crateMask slotMasks hardware.noisy t := by
  obtain ⟨-, last, -, -, settled⟩ := searchSettled search
  have small (c : Channel) (masked : Masked crateMask slotMasks c) : (progressOf s c).vthr.toNat ≤ 255 :=
    NoiseThresholds.settledMost (settled c masked)
  constructor
  · rintro ⟨tuneReads, noisyReads⟩
    exact ⟨tuneChanged small tuneReads noisyReads, fun t ends => noisyChanged (noisyReads t ends)⟩
  · rintro ⟨tuneKeeps, noisyKeeps⟩
    refine ⟨fun n t reached c rest channels d finished => ?_, fun t ends n u reached c rest channels under d masked => ?_⟩
    · obtain ⟨stale, loaded⟩ := tuneReached small tuneKeeps reached
      obtain rfl := nothingStale loaded channels
      have mem : c ∈ t.channels := by rw [channels]; exact .head _
      exact loadedRead loaded.loaded (fun _ _ => .inr ⟨c, mem, rfl⟩) ⟨finished,nofun⟩ fun same => finished.2.2 (same ▸ mem)
    · obtain ⟨n', t', reached', stop⟩ := endsReaches ends
      obtain ⟨same, spent⟩ : t' = t ∧ t'.channels = [] ∧ t'.crates = [] := by
        rcases stopPass stop with failed | ⟨exit, spent⟩
        · exact absurd failed.1 (Option.some_ne_none t)
        · exact ⟨(Option.some.inj exit).symm, spent⟩
      subst same
      obtain ⟨stale, loaded⟩ := tuneReached small tuneKeeps reached'
      obtain ⟨stale', loaded'⟩ := noisyReached loaded spent (noisyKeeps t' ends) reached
      exact noisyRead loaded' channels under masked

end Runs

section One
open NoiseThresholds

theorem oneCrate : ∀ i : Fin 20, (1#32).getLsbD i = true → i = 0 := by decide

theorem tenfoldEight : tenfoldLimit 8 = 11 := by
  norm_num [tenfoldLimit, sleepTime, show (8 : Frequency).tenfold = 80 from rfl]

theorem loudFirst (c : Channel) : tuneChannel 8 (fun _ => 0) c 26 (3-0) 0 = .stop 26 := by
  have three : ((3 : BitVec 32)-0).toNat = 3 := rfl
  unfold tuneChannel noisy
  simp only
  rw [if_neg (by decide), if_neg (by decide), three, if_neg (by rw [tenfoldEight]; norm_num),
    if_pos (decide_eq_true (by rw [limitEight]; norm_num)), if_neg (Nat.lt_irrefl 0)]

theorem loudKeeps : TuneKeeps 8 0 26 (3-0) 0 := by
  have three : ((3 : BitVec 32)-0).toNat = 3 := rfl
  refine .inr ⟨by decide, ?_⟩
  rw [if_neg (by decide), three]
  exact ⟨by rw [tenfoldEight]; norm_num, .inl rfl⟩

theorem quietKeeps (vthr : BitVec 32) (count : ℕ) : NoisyKeeps vthr (1-0) count := by
  intro loud
  rw [AboveRate, show ((1 : BitVec 32)-0).toNat = 1 from rfl] at loud
  norm_num [noiseTime, maxNoiseRate] at loud

theorem firstEnds (n : ℕ) (ended : (path 0 0 n).done = true ∨ (path 0 0 n).error = true) : (path 0 0 n).vthr = 26 := by
  have late (n : ℕ) : path 0 0 (2+n) = ⟨true,true,false,26⟩ := by
    induction n with
    | zero => decide
    | succ n ih =>
      rw [← Nat.add_assoc, path, ih, decide_eq_false (by omega : ¬ 2+n = 0)]
      rfl
  have early : ∀ n < 2, ¬ ((path 0 0 n).done = true ∨ (path 0 0 n).error = true) := by decide
  have two : 2 ≤ n := Nat.le_of_not_lt fun less => early n less ended
  rw [← Nat.add_sub_cancel' two, late]

theorem oneSearch (tuning : ℕ → Option (BitVec 32 × BitVec 32)) : ∃ s,
    Ends (mainTurn 1 (fun _ => 1) 8 (oneNoise 0 tuning).main) (searchStart (fun _ => 0) ⟨fun _ => 0,fun _ => 0,fun _ => 0⟩) (some s) ∧
      ∀ c, Masked 1 (fun _ => 1) c → copied 1 (fun _ => 1) s c = 26 := by
  obtain ⟨s, search⟩ : ∃ s, Ends (mainTurn 1 (fun _ => 1) 8 (oneNoise 0 tuning).main)
      (searchStart (fun _ => 0) ⟨fun _ => 0,fun _ => 0,fun _ => 0⟩) (some s) :=
    someSearch 1 (fun _ => 1) 8 (fun _ => 0) (fun n => Option.some_ne_none _) _
  exact ⟨s, search, fun c masked => (if_pos masked).trans (pathSearched firstEnds search masked)⟩

theorem loadsKeptQuiet : ∃ s,
    Ends (mainTurn 1 (fun _ => 1) 8 (oneNoise 0 fun _ => some (0,3)).main)
      (searchStart (fun _ => 0) ⟨fun _ => 0,fun _ => 0,fun _ => 0⟩) (some s) ∧
    TuneReads 1 (fun _ => 1) 8 (fun _ => 0) (fun _ => some (0,3)) s ∧
    ∀ t, Ends (tuneTurn (fun _ => 1) 8 (fun _ => 0) fun _ => some (0,3)) (tuneStart 1 (fun _ => 1) s) (some t) →
      NoisyReads 1 (fun _ => 1) (fun _ => some (0,1)) t := by
  obtain ⟨s, search, start⟩ := oneSearch fun _ => some (0,3)
  have tuneKeeps : TuneRunKeeps 1 (fun _ => 1) 8 (fun _ => 0) (fun _ => some (0,3)) s := by
    intro n t reached
    have here : Placed 1 (fun _ => 1) t ∧ t.steps = 0 ∧ ∀ c, Masked 1 (fun _ => 1) c → t.currentVthr2 c = 26 := by
      refine reachesInvariant (fun _ t => Placed 1 (fun _ => 1) t ∧ t.steps = 0 ∧
        ∀ c, Masked 1 (fun _ => 1) c → t.currentVthr2 c = 26) ⟨placedStart, rfl, start⟩ (fun n t u here turn => ?_) reached
      obtain ⟨placed, first, values⟩ := here
      have step := againPass turn
      refine ⟨placedPass placed step, ?_⟩
      cases step with
      | enter => exact ⟨first, values⟩
      | skip _ spent => exact absurd spent Bool.false_ne_true
      | again channels _ given next =>
        cases given
        rw [first, values _ (placed.masked _ (by rw [channels]; exact .head _)), loudFirst] at next
        contradiction
      | leave channels _ given last =>
        have masked := placed.masked _ (by rw [channels]; exact .head _)
        cases given
        rw [first, values _ masked, loudFirst] at last
        obtain rfl := Turn.stop.inj last
        refine ⟨rfl, fun c masked' => ?_⟩
        rw [← values _ masked]
        change Function.update t.currentVthr2 _ _ c = _
        rw [Function.update_eq_self, values c masked', values _ masked]
    intro c rest first second channels given
    cases given
    rw [here.2.1, here.2.2 c (here.1.masked c (by rw [channels]; exact .head _))]
    exact .inl loudKeeps
  have noisyKeeps (t : Tuner) : NoisyRunKeeps 1 (fun _ => 1) (fun _ => some (0,1)) t := by
    intro n u reached
    have placed : Placed 1 (fun _ => 1) u := reachesInvariant (fun _ u => Placed 1 (fun _ => 1) u) placedStart
      (fun n u v placed turn => placedPass placed (againPass turn)) reached
    refine ⟨fun i more _ crates => .inl fun i' masked => ?_, fun c rest first second _ _ given => ?_⟩
    · exact (oneCrate i' masked).trans (oneCrate i (placed.crates i (by rw [crates]; exact .head _))).symm
    · cases given
      exact .inl (quietKeeps _ _)
  exact ⟨s, search, (loadsKept 1 (fun _ => 1) 8 (fun _ => 0) (oneNoise 0 fun _ => some (0,3))
    ⟨fun _ => 0,fun _ => 0,fun _ => 0⟩ s search).mpr ⟨tuneKeeps,fun t _ => noisyKeeps t⟩⟩

theorem backAgain : tuneChannel 8 (fun _ => 0) (0,0,0) 26 (1-0) 0 = .again 25 := by
  have one : ((1 : BitVec 32)-0).toNat = 1 := rfl
  unfold tuneChannel noisy
  simp only
  rw [if_neg (by decide), if_neg (by decide), one, if_neg (by rw [tenfoldEight]; norm_num),
    if_neg (by rw [limitEight]; norm_num), if_neg (by decide)]
  rfl

theorem backLeave : tuneChannel 8 (fun _ => 0) (0,0,0) 25 (3-0) 1 = .stop 26 := by
  have three : ((3 : BitVec 32)-0).toNat = 3 := rfl
  unfold tuneChannel noisy
  simp only
  rw [if_neg (by decide), if_neg (by decide), three, if_neg (by rw [tenfoldEight]; norm_num),
    if_pos (decide_eq_true (by rw [limitEight]; norm_num)), if_pos Nat.zero_lt_one]
  rfl

theorem oneChannels : ∃ rest, channelsOf (fun _ => 1) 0 = (0,0,0)::(0,0,1)::rest :=
  ⟨(channelsOf (fun _ => 1) 0).drop 2, by decide⟩

/- When the next channel is counted, the first one has 25 loaded. -/
theorem steppedBack : ∃ s,
    Ends (mainTurn 1 (fun _ => 1) 8 (oneNoise 0 fun n => if n = 0 then some (0,1) else some (0,3)).main)
      (searchStart (fun _ => 0) ⟨fun _ => 0,fun _ => 0,fun _ => 0⟩) (some s) ∧
    ¬ TuneReads 1 (fun _ => 1) 8 (fun _ => 0) (fun n => if n = 0 then some (0,1) else some (0,3)) s := by
  obtain ⟨s, search, start⟩ := oneSearch fun n => if n = 0 then some (0,1) else some (0,3)
  obtain ⟨rest, channels⟩ := oneChannels
  refine ⟨s, search, fun reads => ?_⟩
  let s0 := tuneStart 1 (fun _ => 1) s
  let s1 : Tuner := { s0 with crates := [], channels := channelsOf (fun _ => 1) 0 }
  let s2 : Tuner := { Tuner.counted s1 (0,0,0) with currentVthr2 := Function.update s1.currentVthr2 (0,0,0) 25, steps := s1.steps+1 }
  let s3 : Tuner :=
    { Tuner.counted s2 (0,0,0) with
      currentVthr2 := Function.update s2.currentVthr2 (0,0,0) 26, channels := (0,0,1)::rest, steps := 0 }
  have value : s1.currentVthr2 (0,0,0) = 26 := start (0,0,0) oneMasked
  have value2 : s2.currentVthr2 (0,0,0) = 25 := by
    change Function.update s1.currentVthr2 (0,0,0) 25 (0,0,0) = 25
    rw [Function.update_self]
  have value3 : s3.currentVthr2 (0,0,0) = 26 := by
    change Function.update s2.currentVthr2 (0,0,0) 26 (0,0,0) = 26
    rw [Function.update_self]
  have enter : tuneTurn (fun _ => 1) 8 (fun _ => 0) (fun n => if n = 0 then some (0,1) else some (0,3)) s0 = .again s1 :=
    enterTurn rfl (by decide : maskedCrates 1 = [0])
  have again : tuneTurn (fun _ => 1) 8 (fun _ => 0) (fun n => if n = 0 then some (0,1) else some (0,3)) s1 = .again s2 :=
    goTurn channels rfl rfl (by rw [value]; exact backAgain)
  have leave : tuneTurn (fun _ => 1) 8 (fun _ => 0) (fun n => if n = 0 then some (0,1) else some (0,3)) s2 = .again s3 :=
    leaveTurn channels rfl rfl (by rw [value2]; exact backLeave)
  have finished : Finished 1 (fun _ => 1) s3 (0,0,0) := by
    refine ⟨oneMasked, List.not_mem_nil, ?_⟩
    have distinct := channelsOfNodup (fun _ => 1) 0
    rw [channels] at distinct
    exact (List.nodup_cons.mp distinct).1
  have loaded : (s3.load (0,0,1)).bench.dacs (0,0,0) = 25 := by
    refine loadKeeps s3 (0,0,1) (by decide) ?_ fun _ _ _ => ?_
    · change (s2.load (0,0,0)).bench.dacs (0,0,0) = 25
      rw [loadOwn, value2]
      rfl
    · change dacValue (Function.update s2.bench.dacValues 0 (s2.currentVthr2 (0,0,0)) 0) = 25
      rw [Function.update_self, value2]
      rfl
  have read := reads 3 s3 (.again (.again (.again .start enter) again) leave) (0,0,1) rest rfl (0,0,0) finished
  rw [loaded, value3] at read
  exact absurd read (by decide)

end One

end PennDaq.NoiseReads
