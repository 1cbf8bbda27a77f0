import PennDaq.Lib.Sweep
import PennDaq.TTotMeasure
import PennDaq.TTotSearch
import PennDaq.TestDocuments

/-! What `SetTTot` posts: the settings that the search recorded and the errors of the
channels. -/
namespace PennDaq.TTotPosts
open Lib.Loop
open TTotMeasure (slotsOf)
open TTotSearch

def MeasuredAbove (readings : List Reading) (j : Fin 8) (rmp vsi : BitVec 16) : Prop :=
  ∃ reading ∈ readings, (reading.chips j).rmp = rmp ∧ (reading.chips j).vsi = vsi ∧ Above reading.diff j

def MeasuredNotAbove (readings : List Reading) (j : Fin 8) (rmp vsi : BitVec 16) : Prop :=
  ∃ reading ∈ readings, (reading.chips j).rmp = rmp ∧ (reading.chips j).vsi = vsi ∧ ¬ Above reading.diff j

def FirstSetting (readings : List Reading) (j : Fin 8) (rmp vsi : BitVec 16) : Prop :=
  MeasuredAbove readings j rmp vsi ∧ (rmp.toNat-1 = 110 ∨ MeasuredNotAbove readings j (rmp-1) vsi)

theorem aboveMore {before later : List Reading} {j : Fin 8} {rmp vsi : BitVec 16} (some' : MeasuredAbove before j rmp vsi) :
    MeasuredAbove (before ++ later) j rmp vsi := by
  obtain ⟨reading, mem, measured⟩ := some'
  exact ⟨reading, List.mem_append_left later mem, measured⟩

theorem notAboveMore {before later : List Reading} {j : Fin 8} {rmp vsi : BitVec 16}
    (some' : MeasuredNotAbove before j rmp vsi) : MeasuredNotAbove (before ++ later) j rmp vsi := by
  obtain ⟨reading, mem, measured⟩ := some'
  exact ⟨reading, List.mem_append_left later mem, measured⟩

theorem firstMore {before later : List Reading} {j : Fin 8} {rmp vsi : BitVec 16} (first : FirstSetting before j rmp vsi) :
    FirstSetting (before ++ later) j rmp vsi :=
  ⟨aboveMore first.1, first.2.imp_right notAboveMore⟩

/- Behind its turn a chip has nothing above the lower bound that was not above, at the
`vsi` that it has come down to. -/
structure History (readings : List Reading) (j : Fin 8) (c : Chip) : Prop where
  low : c.rmpLow.toNat = 110 ∨ MeasuredNotAbove readings j c.rmpLow c.vsi
  descent : ∀ reading ∈ readings, c.vsi.toNat ≤ (reading.chips j).vsi.toNat
  short : ∀ reading ∈ readings, ¬ Above reading.diff j → (reading.chips j).vsi = c.vsi →
    (reading.chips j).rmp.toNat ≤ c.rmpLow.toNat

structure Standing (readings : List Reading) (j : Fin 8) (c : Chip) : Prop where
  low : c.rmpLow.toNat = 110 ∨ MeasuredNotAbove readings j c.rmpLow c.vsi
  short : ∀ reading ∈ readings, ¬ Above reading.diff j → (reading.chips j).vsi = c.vsi →
    (reading.chips j).rmp.toNat ≤ c.rmpLow.toNat ∨ (reading.chips j).rmp = c.rmp

theorem historyStart (j : Fin 8) : History [] j startChip :=
  ⟨.inl rfl, fun _ mem => absurd mem List.not_mem_nil, fun _ mem => absurd mem List.not_mem_nil⟩

section Current
variable {before : List Reading} {reading : Reading} {j : Fin 8} (history : History before j (reading.chips j))

include history

theorem standingCurrent : Standing (before ++ [reading]) j (reading.chips j) := by
  refine ⟨history.low.imp_right notAboveMore, fun old mem short same => ?_⟩
  rcases List.mem_append.mp mem with mem | mem
  · exact .inl (history.short old mem short same)
  · obtain rfl := List.mem_singleton.mp mem
    exact .inr rfl

theorem historyAbove (above : Above reading.diff j) : History (before ++ [reading]) j (reading.chips j).above.next := by
  refine ⟨history.low.imp_right notAboveMore, fun old mem => ?_, fun old mem short same => ?_⟩
  · rcases List.mem_append.mp mem with mem | mem
    · exact history.descent old mem
    · obtain rfl := List.mem_singleton.mp mem
      exact Nat.le_refl _
  · rcases List.mem_append.mp mem with mem | mem
    · exact history.short old mem short same
    · obtain rfl := List.mem_singleton.mp mem
      exact absurd above short

theorem historyBelow (bounded : (reading.chips j).Bounded) (short : ¬ Above reading.diff j) {c : Chip}
    (below : (reading.chips j).below = some c) : History (before ++ [reading]) j c.next := by
  -- A lowered `vsi` has not been measured yet; otherwise the lower bound moves to the setting.
  have kept (vsi : c.vsi = (reading.chips j).vsi) (low : c.rmpLow = (reading.chips j).rmp) :
      History (before ++ [reading]) j c.next := by
    refine ⟨.inr ?_, fun old mem => ?_, fun old mem short same => ?_⟩
    · exact ⟨reading, List.mem_append_right before List.mem_cons_self, low.symm, vsi.symm, short⟩
    · change c.vsi.toNat ≤ _
      rw [vsi]
      rcases List.mem_append.mp mem with mem | mem
      · exact history.descent old mem
      · obtain rfl := List.mem_singleton.mp mem
        exact Nat.le_refl _
    · change _ ≤ c.rmpLow.toNat
      rw [low]
      rcases List.mem_append.mp mem with mem | mem
      · exact (history.short old mem short (same.trans vsi)).trans bounded.low.le
      · obtain rfl := List.mem_singleton.mp mem
        exact Nat.le_refl _
  rcases belowCases bounded below with ⟨more, vsi, full, high, low⟩ | ⟨vsi, low, -⟩ | ⟨vsi, low, -⟩
  · have lower (old : Reading) (mem : old ∈ before ++ [reading]) : c.vsi.toNat < (old.chips j).vsi.toNat := by
      rcases List.mem_append.mp mem with mem | mem
      · have := history.descent old mem
        omega
      · obtain rfl := List.mem_singleton.mp mem
        omega
    refine ⟨.inl low, fun old mem => (lower old mem).le, fun old mem short same => ?_⟩
    exact absurd (congrArg BitVec.toNat same) (lower old mem).ne'
  · exact kept vsi low
  · exact kept vsi low

end Current

/- A setting is the first that works when it lies one above the lower bound and has
been measured above. -/
theorem standingFirst {readings : List Reading} {j : Fin 8} {c : Chip} (standing : Standing readings j c)
    (bounded : c.Bounded) : FirstSetting readings j c.rmp c.vsi ↔ c.Narrowed ∧ MeasuredAbove readings j c.rmp c.vsi := by
  have lowest := bounded.lowest
  have low := bounded.low
  have less : (c.rmp-1).toNat = c.rmp.toNat-1 := by
    rw [BitVec.toNat_sub_of_le (by rw [BitVec.le_def]; change 1 ≤ _; omega)]
    rfl
  unfold Chip.Narrowed
  constructor
  · rintro ⟨above, start | ⟨reading, mem, rmp, vsi, short⟩⟩
    · exact ⟨by omega, above⟩
    · refine ⟨?_, above⟩
      have value : (reading.chips j).rmp.toNat = c.rmp.toNat-1 := by rw [rmp, less]
      rcases standing.short reading mem short vsi with below | same
      · omega
      · rw [same] at value
        omega
  · rintro ⟨narrowed, above⟩
    refine ⟨above, ?_⟩
    have one : c.rmp-1 = c.rmpLow := BitVec.eq_of_toNat_eq (by omega)
    rw [one]
    exact standing.low.imp_left fun low => by omega

theorem narrowedFirst {before : List Reading} {reading : Reading} {j : Fin 8}
    (history : History before j (reading.chips j)) (bounded : (reading.chips j).Bounded) (above : Above reading.diff j)
    (narrowed : (reading.chips j).Narrowed) :
    FirstSetting (before ++ [reading]) j (reading.chips j).rmp (reading.chips j).vsi := by
  have mem : reading ∈ before ++ [reading] := List.mem_append_right before List.mem_cons_self
  exact (standingFirst (standingCurrent history) bounded).mpr ⟨narrowed, reading, mem, rfl, rfl, above⟩

theorem historyStanding {readings : List Reading} {j : Fin 8} {c : Chip} (history : History readings j c) :
    Standing readings j c :=
  ⟨history.low, fun reading mem short same => .inl (history.short reading mem short same)⟩

def Recorded (s : Search) (j : Fin 8) (rmp vsi : BitVec 16) : Prop :=
  s.allrmps j = some rmp ∧ s.allvsis j = some vsi

def Finished (s : Search) (j : Fin 8) : Prop := ∃ rmp vsi, Recorded s j rmp vsi ∧ FirstSetting s.readings j rmp vsi

/- Behind an abort the chips that were unfinished are recorded as they stand, and only
the channels of one chip are in error for it. -/
structure Aborted (first : Fin 32 → ℤ) (s : Search) (a : Fin 8) (unfinished : BitVec 16) : Prop where
  errors : s.totErrors = fun k => if k.val/4 = a.val then 1 else first k
  finished : ∀ l : Fin 8, unfinished.getLsbD l = false → Finished s l
  recorded : ∀ l : Fin 8, unfinished.getLsbD l = true → ∃ rmp vsi, Recorded s l rmp vsi
  left : ∀ l : Fin 8, l ≠ a → unfinished.getLsbD l = true → Recorded s l (s.chips l).rmp (s.chips l).vsi ∧
    Standing s.readings l (s.chips l) ∧ (s.chips l).Bounded

structure Outcome (first : Fin 32 → ℤ) (s : Search) : Prop where
  finished : s.aborted = none → ∀ j, ¬ s.Unfinished j → Finished s j
  errors : s.aborted = none → s.totErrors = first
  stopped : s.aborted ≠ none → s.chipsNotFinished = 0
  aborted : ∀ a unfinished, s.aborted = some (a,unfinished) → Aborted first s a unfinished

structure Kept (first : Fin 32 → ℤ) (s : Search) : Prop where
  history : ∀ j, s.Unfinished j → History s.readings j (s.chips j)
  outcome : Outcome first s

structure Underway (first : Fin 32 → ℤ) (before : List Reading) (reading : Reading) (waiting : List (Fin 8))
    (s : Search) : Prop where
  readings : s.readings = before ++ [reading]
  ahead : ∀ j ∈ waiting, s.Unfinished j → s.chips j = reading.chips j ∧ History before j (reading.chips j)
  turned : ∀ j, j ∉ waiting → s.Unfinished j → History s.readings j (s.chips j)
  outcome : Outcome first s

theorem keptStart (first : Fin 32 → ℤ) (calls : ℕ) : Kept first (searchStart first calls) := by
  refine ⟨fun j _ => historyStart j, fun _ j finished => ?_, fun _ => rfl, fun some' => absurd rfl some',
    fun a unfinished some' => by cases some'⟩
  refine absurd ?_ finished
  exact (by decide : ∀ j : Fin 8, (0xFF#16).getLsbD j = true) j

theorem runningOf {first : Fin 32 → ℤ} {s : Search} (outcome : Outcome first s) {j : Fin 8} (unfinished : s.Unfinished j) :
    s.aborted = none := by
  by_contra some'
  exact noneUnfinished (outcome.stopped some') j unfinished

theorem outcomeChecked {first : Fin 32 → ℤ} {s : Search} (outcome : Outcome first s) (running : s.aborted = none)
    (diff : Fin 32 → ℤ) : Outcome first (s.check diff) := by
  refine ⟨fun _ j finished => ?_, outcome.errors, outcome.stopped, fun a unfinished some' => ?_⟩
  · obtain ⟨rmp, vsi, recorded, setting⟩ := outcome.finished running j finished
    exact ⟨rmp, vsi, recorded, firstMore setting⟩
  · rw [Search.check, running] at some'
    cases some'

theorem checkUnderway {first : Fin 32 → ℤ} {s : Search} (kept : Kept first s) (running : s.aborted = none)
    (diff : Fin 32 → ℤ) :
    Underway first s.readings ⟨s.chips,s.chipsNotFinished,diff⟩ (List.finRange 8) (s.check diff) where
  readings := rfl
  ahead j _ unfinished := ⟨rfl,kept.history j unfinished⟩
  turned j out := absurd (List.mem_finRange j) out
  outcome := outcomeChecked kept.outcome running diff

theorem outcomeReplaced {first : Fin 32 → ℤ} {s : Search} (outcome : Outcome first s) (running : s.aborted = none)
    (j : Fin 8) (c : Chip) : Outcome first (s.setChip j c) := by
  refine ⟨outcome.finished, outcome.errors, outcome.stopped, fun a unfinished some' => ?_⟩
  rw [Search.setChip, running] at some'
  cases some'

theorem outcomeFinished {first : Fin 32 → ℤ} {s : Search} (outcome : Outcome first s) (running : s.aborted = none)
    {j : Fin 8} (setting : FirstSetting s.readings j (s.chips j).rmp (s.chips j).vsi) : Outcome first (s.finish j) := by
  refine ⟨fun _ i finished => ?_, outcome.errors, fun some' => absurd running some', fun a unfinished some' => ?_⟩
  · by_cases same : i = j
    · subst same
      exact ⟨_, _, ⟨Function.update_self .., Function.update_self ..⟩, setting⟩
    · obtain ⟨rmp, vsi, ⟨rmps, vsis⟩, setting⟩ := outcome.finished running i fun open' =>
        finished ((finishUnfinished s i j).mpr ⟨same, open'⟩)
      exact ⟨rmp, vsi, ⟨(Function.update_of_ne same ..).trans rmps, (Function.update_of_ne same ..).trans vsis⟩, setting⟩
  · rw [Search.finish, running] at some'
    cases some'

section Turn
variable {first : Fin 32 → ℤ} {before : List Reading} {reading : Reading} {later : List (Fin 8)} {s : Search} {j : Fin 8}

theorem underwayStanding {waiting : List (Fin 8)} (underway : Underway first before reading waiting s) (l : Fin 8)
    (unfinished : s.Unfinished l) : Standing s.readings l (s.chips l) := by
  by_cases mem : l ∈ waiting
  · obtain ⟨same, history⟩ := underway.ahead l mem unfinished
    rw [underway.readings, same]
    exact standingCurrent history
  · exact historyStanding (underway.turned l mem unfinished)

theorem abortAborted {waiting : List (Fin 8)} (underway : Underway first before reading waiting s) (searching : Searching s)
    (running : s.aborted = none) (a : Fin 8) (c : Chip) :
    Aborted first ((s.abort a).setChip a c) a s.chipsNotFinished := by
  have recorded (l : Fin 8) (bit : s.chipsNotFinished.getLsbD l = true) :
      Recorded ((s.abort a).setChip a c) l (s.chips l).rmp (s.chips l).vsi := ⟨if_pos bit, if_pos bit⟩
  refine ⟨?_, fun l bit => ?_, fun l bit => ⟨_, _, recorded l bit⟩, fun l other bit => ?_⟩
  · rw [← underway.outcome.errors running]
    rfl
  · have finished : ¬ s.Unfinished l := by
      rw [Search.Unfinished, bit]
      decide
    obtain ⟨rmp, vsi, ⟨rmps, vsis⟩, setting⟩ := underway.outcome.finished running l finished
    exact ⟨rmp, vsi, ⟨(if_neg finished).trans rmps, (if_neg finished).trans vsis⟩, setting⟩
  · rw [setChipChips, if_neg other]
    exact ⟨recorded l bit, underwayStanding underway l bit, searching.bounded l bit⟩

theorem turnAhead {after : Search} (underway : Underway first before reading (j::later) s) (distinct : j ∉ later)
    (readings : after.readings = s.readings)
    (others : ∀ i, i ≠ j → after.Unfinished i → s.Unfinished i ∧ after.chips i = s.chips i)
    (own : after.Unfinished j → History (before ++ [reading]) j (after.chips j)) (outcome : Outcome first after) :
    Underway first before reading later after where
  readings := readings.trans underway.readings
  ahead i mem open' := by
    obtain ⟨unfinished, same⟩ := others i (fun same => distinct (same ▸ mem)) open'
    rw [same]
    exact underway.ahead i (List.mem_cons_of_mem j mem) unfinished
  turned i out open' := by
    rw [readings]
    by_cases same : i = j
    · subst same
      rw [underway.readings]
      exact own open'
    · obtain ⟨unfinished, chip⟩ := others i same open'
      rw [chip]
      exact underway.turned i (List.not_mem_cons_of_ne_of_not_mem same out) unfinished
  outcome := outcome

theorem replaceUnderway (underway : Underway first before reading (j::later) s) (distinct : j ∉ later)
    (unfinished : s.Unfinished j) {c : Chip} (history : History (before ++ [reading]) j c) :
    Underway first before reading later (s.setChip j c) := by
  have running := runningOf underway.outcome unfinished
  refine turnAhead underway distinct rfl (fun i other open' => ⟨open', ?_⟩) (fun _ => ?_)
    (outcomeReplaced underway.outcome running j _)
  · rw [setChipChips, if_neg other]
  · rw [setChipChips, if_pos rfl]
    exact history

theorem finishUnderway (underway : Underway first before reading (j::later) s) (distinct : j ∉ later)
    (unfinished : s.Unfinished j) (setting : FirstSetting s.readings j (s.chips j).rmp (s.chips j).vsi) (c : Chip) :
    Underway first before reading later ((s.finish j).setChip j c) := by
  have running := runningOf underway.outcome unfinished
  refine turnAhead underway distinct rfl (fun i other open' => ?_) (fun open' => ?_)
    (outcomeReplaced (outcomeFinished underway.outcome running setting) running j _)
  · exact ⟨((finishUnfinished s i j).mp open').2, by rw [setChipChips, if_neg other, finishChips]⟩
  · exact absurd rfl ((finishUnfinished s j j).mp open').1

theorem abortUnderway (underway : Underway first before reading (j::later) s) (distinct : j ∉ later)
    (unfinished : s.Unfinished j) (searching : Searching s) (c : Chip) :
    Underway first before reading later ((s.abort j).setChip j c) := by
  have running := runningOf underway.outcome unfinished
  have gone (i : Fin 8) : ¬ ((s.abort j).setChip j c).Unfinished i := abortUnfinished s i j
  refine turnAhead underway distinct rfl (fun i _ open' => absurd open' (gone i)) (fun open' => absurd open' (gone j))
    ⟨fun none' => ?_, fun none' => ?_, fun _ => rfl, fun a mask some' => ?_⟩
  · cases none'
  · cases none'
  · cases some'
    exact abortAborted underway searching running j _

theorem turnUnderway {after : Search} (underway : Underway first before reading (j::later) s) (distinct : j ∉ later)
    (searching : Searching s) (turn : Turned reading.diff s j after) : Underway first before reading later after := by
  have current := underway.ahead j List.mem_cons_self
  have bounded := searching.bounded j
  cases turn with
  | skip finished =>
    exact turnAhead underway distinct rfl (fun i _ open' => ⟨open', rfl⟩) (fun open' => absurd open' finished)
      underway.outcome
  | finish unfinished above narrowed =>
    obtain ⟨same, history⟩ := current unfinished
    have within := bounded unfinished
    rw [same] at narrowed within
    have setting : FirstSetting s.readings j (s.chips j).rmp (s.chips j).vsi := by
      rw [underway.readings, same]
      exact narrowedFirst history within above narrowed
    exact finishUnderway underway distinct unfinished setting _
  | above unfinished above wide =>
    obtain ⟨same, history⟩ := current unfinished
    rw [same]
    exact replaceUnderway underway distinct unfinished (historyAbove history above)
  | below unfinished short below =>
    obtain ⟨same, history⟩ := current unfinished
    have within := bounded unfinished
    rw [same] at below within
    exact replaceUnderway underway distinct unfinished (historyBelow history within short below)
  | abort unfinished short below => exact abortUnderway underway distinct unfinished searching _

theorem foldUnderway {waiting : List (Fin 8)} (underway : Underway first before reading waiting s)
    (distinct : waiting.Nodup) (searching : Searching s) :
    Underway first before reading [] (waiting.foldl (chipTurn reading.diff) s) := by
  -- Over the chips that are waiting: those that had their turn keep their history.
  induction waiting generalizing s with
  | nil => exact underway
  | cons j later ih =>
    obtain ⟨single, distinct⟩ := List.nodup_cons.mp distinct
    have turn := turned reading.diff s j
    exact ih (turnUnderway underway single searching turn) distinct (turnSearching turn searching)

end Turn

theorem passKept {diffs : ℕ → Fin 32 → ℤ} {first : Fin 32 → ℤ} {s : Search} (kept : Kept first s)
    (searching : Searching s) (more : s.chipsNotFinished ≠ 0) : Kept first (searchPass diffs s) := by
  have running : s.aborted = none := by
    by_contra some'
    exact more (kept.outcome.stopped some')
  have underway := foldUnderway (checkUnderway kept running (diffs s.calls)) (List.nodup_finRange 8)
    (checkSearching _ searching)
  unfold searchPass
  exact ⟨fun j unfinished => underway.turned j List.not_mem_nil unfinished, underway.outcome⟩

theorem searchKept {diffs : ℕ → Fin 32 → ℤ} {first : Fin 32 → ℤ} {calls : ℕ} {s : Search}
    (ends : Ends (searchTurn diffs) (searchStart first calls) s) : Kept first s ∧ s.chipsNotFinished = 0 := by
  obtain ⟨⟨kept, -⟩, done⟩ := searchInvariant (fun s => Kept first s ∧ Searching s)
    (fun s both more => ⟨passKept both.1 both.2 more, passSearching diffs both.2⟩)
    ⟨keptStart first calls, searchingStart first calls⟩ ends
  exact ⟨kept, done⟩

theorem searchGiven {diffs : ℕ → Fin 32 → ℤ} {first : Fin 32 → ℤ} {calls : ℕ} {s : Search}
    (ends : Ends (searchTurn diffs) (searchStart first calls) s) :
    ∀ reading ∈ s.readings, ∃ call, reading.diff = diffs call := by
  have turns (diff : Fin 32 → ℤ) (s : Search) (j : Fin 8) : (chipTurn diff s j).readings = s.readings := by
    have turn := turned diff s j
    generalize chipTurn diff s j = after at turn ⊢
    cases turn <;> rfl
  refine (searchInvariant (fun s => ∀ reading ∈ s.readings, ∃ call, reading.diff = diffs call)
    (fun s kept _ reading mem => ?_) (fun _ mem => absurd mem List.not_mem_nil) ends).1
  unfold searchPass at mem
  rw [Lib.Sweep.sweepKeeps Search.readings (turns _)] at mem
  rcases List.mem_append.mp mem with mem | mem
  · exact kept reading mem
  · exact ⟨s.calls, congrArg Reading.diff (List.mem_singleton.mp mem)⟩

/- The triggers of channel `k` are checked in the `k`-th call. -/
def NoTriggers (diffs : ℕ → Fin 32 → ℤ) (calls : ℕ) (k : Fin 32) : Prop := diffs (calls+k) k = 1

instance (diffs : ℕ → Fin 32 → ℤ) (calls : ℕ) (k : Fin 32) : Decidable (NoTriggers diffs calls k) :=
  inferInstanceAs (Decidable (_ = _))

def firstErrors (diffs : ℕ → Fin 32 → ℤ) (calls : ℕ) (k : Fin 32) : ℤ := if NoTriggers diffs calls k then 2 else 0

structure Run where
  slot : ℕ
  calls : ℕ
  search : Search

inductive SetTTot (diffs : ℕ → Fin 32 → ℤ) : List ℕ → ℕ → List Run → Prop where
  | nil (calls : ℕ) : SetTTot diffs [] calls []
  | cons {slot calls : ℕ} {later : List ℕ} {s : Search} {runs : List Run}
      (ends : Ends (searchTurn diffs) (searchStart (firstErrors diffs calls) (calls+32)) s)
      (rest : SetTTot diffs later s.calls runs) : SetTTot diffs (slot::later) calls (⟨slot,calls,s⟩::runs)

/- The document of a slot. An element that was not recorded has any value. -/
def Run.setup (run : Run) (diffs : ℕ → Fin 32 → ℤ) (unset : Fin 8 → BitVec 16) (targetTime : ℤ)
    (alltimes : Fin 32 → BitVec 16) : TestDocuments.TTotSetup where
  targetTime := targetTime
  chips j := ⟨(run.search.allrmps j).getD (unset j),(run.search.allvsis j).getD (unset j)⟩
  times := alltimes
  noTriggers k := NoTriggers diffs run.calls k
  aborted := run.search.aborted.map Prod.fst

/- A channel that is posted without an error belongs to a chip with the first setting
that works, and one without triggers has the error 2. -/
def Sound (diffs : ℕ → Fin 32 → ℤ) (unset : Fin 8 → BitVec 16) (run : Run) : Prop :=
  ∀ j c, (run.search.totErrors (channel j c) = 0 → FirstSetting run.search.readings j
      ((run.search.allrmps j).getD (unset j)) ((run.search.allvsis j).getD (unset j))) ∧
    (NoTriggers diffs run.calls (channel j c) → run.search.totErrors (channel j c) = 2)

/- The search is not aborted, or neither loses an error by it nor posts a chip in the
middle of its search without one. -/
def Excused (diffs : ℕ → Fin 32 → ℤ) (run : Run) : Prop :=
  ∀ a unfinished, run.search.aborted = some (a,unfinished) → (∀ c, ¬ NoTriggers diffs run.calls (channel a c)) ∧
    ∀ l : Fin 8, l ≠ a → unfinished.getLsbD l = true → (∀ c, NoTriggers diffs run.calls (channel l c)) ∨
      ((run.search.chips l).Narrowed ∧
        MeasuredAbove run.search.readings l (run.search.chips l).rmp (run.search.chips l).vsi)

theorem channelChip (j : Fin 8) (c : Fin 4) : (channel j c).val/4 = j.val := by
  change (4*j.val+c.val)/4 = j.val
  omega

theorem firstError {diffs : ℕ → Fin 32 → ℤ} {calls : ℕ} {k : Fin 32} :
    firstErrors diffs calls k = 0 ↔ ¬ NoTriggers diffs calls k := by
  unfold firstErrors
  split
  · rename_i failed
    exact iff_of_false (by decide) (not_not_intro failed)
  · rename_i good
    exact iff_of_true rfl good

section Posted
variable {diffs : ℕ → Fin 32 → ℤ} {unset : Fin 8 → BitVec 16} {run : Run}

theorem abortError {a j : Fin 8} {unfinished : BitVec 16}
    (aborted : Aborted (firstErrors diffs run.calls) run.search a unfinished) (c : Fin 4) :
    run.search.totErrors (channel j c) = if j = a then 1 else firstErrors diffs run.calls (channel j c) := by
  rw [aborted.errors]
  simp only [channelChip, Fin.val_inj]

theorem finishedSetting {j : Fin 8} (finished : Finished run.search j) : FirstSetting run.search.readings j
    ((run.search.allrmps j).getD (unset j)) ((run.search.allvsis j).getD (unset j)) := by
  obtain ⟨rmp, vsi, ⟨rmps, vsis⟩, setting⟩ := finished
  rw [rmps, vsis]
  exact setting

theorem leftSetting {a l : Fin 8} {unfinished : BitVec 16}
    (aborted : Aborted (firstErrors diffs run.calls) run.search a unfinished) (other : l ≠ a)
    (bit : unfinished.getLsbD l = true) : FirstSetting run.search.readings l
      ((run.search.allrmps l).getD (unset l)) ((run.search.allvsis l).getD (unset l)) ↔
    (run.search.chips l).Narrowed ∧
      MeasuredAbove run.search.readings l (run.search.chips l).rmp (run.search.chips l).vsi := by
  obtain ⟨⟨rmps, vsis⟩, standing, bounded⟩ := aborted.left l other bit
  rw [rmps, vsis]
  exact standingFirst standing bounded

theorem abortSound {a : Fin 8} {unfinished : BitVec 16}
    (aborted : Aborted (firstErrors diffs run.calls) run.search a unfinished) :
    Sound diffs unset run ↔ (∀ c, ¬ NoTriggers diffs run.calls (channel a c)) ∧
      ∀ l : Fin 8, l ≠ a → unfinished.getLsbD l = true → (∀ c, NoTriggers diffs run.calls (channel l c)) ∨
        ((run.search.chips l).Narrowed ∧
          MeasuredAbove run.search.readings l (run.search.chips l).rmp (run.search.chips l).vsi) := by
  constructor
  · intro sound
    refine ⟨fun c failed => ?_, fun l other bit => or_iff_not_imp_left.mpr fun some' => ?_⟩
    · have two := (sound a c).2 failed
      rw [abortError aborted, if_pos rfl] at two
      contradiction
    · obtain ⟨c, good⟩ := not_forall.mp some'
      refine (leftSetting aborted other bit).mp ((sound l c).1 ?_)
      rw [abortError aborted, if_neg other]
      exact firstError.mpr good
  · rintro ⟨own, others⟩ j c
    rw [abortError aborted]
    by_cases same : j = a
    · subst same
      rw [if_pos rfl]
      exact ⟨fun zero => absurd zero (by decide), fun failed => absurd failed (own c)⟩
    rw [if_neg same]
    refine ⟨fun zero => ?_, fun failed => if_pos failed⟩
    cases bit : unfinished.getLsbD j with
    | true =>
      refine (leftSetting aborted same bit).mpr ((others j same bit).resolve_left fun failed => ?_)
      exact firstError.mp zero (failed c)
    | false => exact finishedSetting (aborted.finished j bit)

theorem runSound (kept : Kept (firstErrors diffs run.calls) run.search) (done : run.search.chipsNotFinished = 0) :
    Sound diffs unset run ↔ Excused diffs run := by
  cases some' : run.search.aborted with
  | some stop =>
    have aborted := kept.outcome.aborted stop.1 stop.2 some'
    rw [abortSound aborted, Excused, some']
    constructor
    · rintro excused a unfinished same
      cases same
      exact excused
    · exact fun excused => excused stop.1 stop.2 rfl
  | none =>
    refine iff_of_true (fun j c => ?_) (fun a unfinished same => ?_)
    · rw [kept.outcome.errors some']
      exact ⟨fun _ => finishedSetting (kept.outcome.finished some' j (noneUnfinished done j)), fun failed => if_pos failed⟩
    · rw [some'] at same
      cases same

end Posted

theorem runsKept {diffs : ℕ → Fin 32 → ℤ} {slots : List ℕ} {calls : ℕ} {runs : List Run}
    (set : SetTTot diffs slots calls runs) : ∀ run ∈ runs,
      Kept (firstErrors diffs run.calls) run.search ∧ run.search.chipsNotFinished = 0 := by
  induction set with
  | nil calls => exact fun run mem => absurd mem List.not_mem_nil
  | cons ends rest ih =>
    intro run mem
    rcases List.mem_cons.mp mem with rfl | mem
    · exact searchKept ends
    · exact ih run mem

theorem setEnds (diffs : ℕ → Fin 32 → ℤ) (slots : List ℕ) (calls : ℕ) : ∃ runs, SetTTot diffs slots calls runs := by
  induction slots generalizing calls with
  | nil => exact ⟨[], .nil calls⟩
  | cons slot later ih =>
    obtain ⟨s, ends⟩ := searchRuns diffs (firstErrors diffs calls) (calls+32)
    obtain ⟨runs, rest⟩ := ih s.calls
    exact ⟨_, .cons ends rest⟩

/- Only an abort spoils what is posted. -/
theorem postsSound {diffs : ℕ → Fin 32 → ℤ} {slotMask : BitVec 32} {runs : List Run} (unset : Fin 8 → BitVec 16)
    (set : SetTTot diffs (slotsOf slotMask) 0 runs) :
    (∀ run ∈ runs, Sound diffs unset run) ↔ ∀ run ∈ runs, Excused diffs run := by
  refine forall₂_congr fun run mem => ?_
  obtain ⟨kept, done⟩ := runsKept set run mem
  exact runSound kept done

theorem foldRuns {diff : Fin 32 → ℤ} {waiting : List (Fin 8)} {s : Search} (running : s.aborted = none)
    (distinct : waiting.Nodup) (inside : ∀ j ∈ waiting, Above diff j ∨ (s.chips j).below ≠ none) :
    (waiting.foldl (chipTurn diff) s).aborted = none := by
  induction waiting generalizing s with
  | nil => exact running
  | cons j later ih =>
    obtain ⟨single, distinct⟩ := List.nodup_cons.mp distinct
    have own := inside j List.mem_cons_self
    have others (after : Search) (kept : ∀ i, i ≠ j → after.chips i = s.chips i) (i : Fin 8) (mem : i ∈ later) :
        Above diff i ∨ (after.chips i).below ≠ none := by
      rw [kept i fun same => single (same ▸ mem)]
      exact inside i (List.mem_cons_of_mem j mem)
    have turn := turned diff s j
    rw [List.foldl_cons]
    generalize chipTurn diff s j = after at turn ⊢
    cases turn with
    | skip finished => exact ih running distinct (others s fun _ _ => rfl)
    | finish unfinished above narrowed =>
      exact ih running distinct (others _ fun i other => by rw [setChipChips, if_neg other, finishChips])
    | above unfinished above wide =>
      exact ih running distinct (others _ fun i other => by rw [setChipChips, if_neg other])
    | below unfinished short below =>
      exact ih running distinct (others _ fun i other => by rw [setChipChips, if_neg other])
    | abort unfinished short below => exact (own.elim short fun some' => some' below).elim

def firstShort (call : ℕ) (k : Fin 32) : ℤ :=
  if call = 3 ∧ k.val = 3 then 1 else if call = 32 ∧ k.val < 4 then -7 else 5

theorem shortOnce {call : ℕ} (later : 32 < call) (j : Fin 8) : Above (firstShort call) j := by
  intro c
  rw [firstShort, if_neg (by omega), if_neg (by omega)]
  decide

theorem shortRuns {first : Fin 32 → ℤ} {calls : ℕ} {s : Search}
    (ends : Ends (searchTurn firstShort) (searchStart first (calls+32)) s) : s.aborted = none := by
  refine (searchInvariant (fun s => s.aborted = none ∧ 32 ≤ s.calls ∧ (s.calls = 32 → ∀ j, s.chips j = startChip))
    (fun s kept _ => ?_) ⟨rfl, Nat.le_add_left .., fun _ _ => rfl⟩ ends).1.1
  obtain ⟨running, measured, start⟩ := kept
  have turns (diff : Fin 32 → ℤ) (s : Search) (j : Fin 8) : (chipTurn diff s j).calls = s.calls := by
    have turn := turned diff s j
    generalize chipTurn diff s j = after at turn ⊢
    cases turn <;> rfl
  have next : (searchPass firstShort s).calls = s.calls+1 := Lib.Sweep.sweepKeeps Search.calls (turns _) _ _
  refine ⟨foldRuns running (List.nodup_finRange 8) fun j _ => ?_, by omega, fun same => by omega⟩
  rcases Nat.eq_or_lt_of_le measured with same | more
  · have chip : ((s.check (firstShort s.calls)).chips j) = startChip := start same.symm j
    rw [chip]
    exact .inr (by decide)
  · exact .inl (shortOnce more j)

theorem shortRunning {slots : List ℕ} {calls : ℕ} {runs : List Run} (set : SetTTot firstShort slots calls runs) :
    runs.map Run.slot = slots ∧ ∀ run ∈ runs, run.search.aborted = none := by
  induction set with
  | nil calls => exact ⟨rfl, fun run mem => absurd mem List.not_mem_nil⟩
  | cons ends rest ih =>
    refine ⟨congrArg _ ih.1, fun run mem => ?_⟩
    rcases List.mem_cons.mp mem with rfl | mem
    · exact shortRuns ends
    · exact ih.2 run mem

theorem postsSoundShort : ∃ runs, SetTTot firstShort (slotsOf 3) 0 runs ∧ runs.map Run.slot = [0,1] ∧
    ∀ run ∈ runs, Sound firstShort (fun _ => 0) run ∧ ∀ j, j ≠ 0 → ∀ c, run.search.totErrors (channel j c) = 0 := by
  obtain ⟨runs, set⟩ := setEnds firstShort (slotsOf 3) 0
  obtain ⟨slots, running⟩ := shortRunning set
  have sound := (postsSound (fun _ => 0) set).mpr fun run mem a unfinished some' => by
    rw [running run mem] at some'
    cases some'
  refine ⟨runs, set, slots, fun run mem => ⟨sound run mem, fun j other c => ?_⟩⟩
  rw [(runsKept set run mem).1.outcome.errors (running run mem), firstError]
  have high : 4 ≤ (channel j c).val := by
    have := Fin.pos_iff_ne_zero.mpr other
    change 4 ≤ 4*j.val+c.val
    omega
  rw [NoTriggers, firstShort, if_neg fun both => by rw [both.2] at high; exact absurd high (by decide)]
  split
  · decide
  · decide

/- No channel is ever above the target: the search of the slot is aborted for one chip,
and the others are posted without an error. -/
theorem abortedPosted : ∃ runs, SetTTot (fun _ _ => 0) (slotsOf 1) 0 runs ∧
    ¬ ∀ run ∈ runs, Sound (fun _ _ => 0) (fun _ => 0) run := by
  obtain ⟨runs, set⟩ := setEnds (fun _ _ => 0) (slotsOf 1) 0
  refine ⟨runs, set, fun sound => ?_⟩
  rw [show slotsOf 1 = [0] from rfl] at set
  obtain _ | ⟨ends, rest⟩ := set
  rename_i s runs
  obtain ⟨kept, done⟩ := searchKept ends
  have never (j : Fin 8) (rmp vsi : BitVec 16) : ¬ MeasuredAbove s.readings j rmp vsi := by
    rintro ⟨reading, mem, -, -, above⟩
    obtain ⟨call, same⟩ := searchGiven ends reading mem
    rw [same] at above
    exact (lt_irrefl 0 (above 0)).elim
  have posted := sound _ List.mem_cons_self
  cases some' : s.aborted with
  | none =>
    have zero : s.totErrors (channel 0 0) = 0 := by rw [kept.outcome.errors some']; rfl
    exact never _ _ _ ((posted 0 0).1 zero).1
  | some stop =>
    obtain ⟨j, other⟩ := exists_ne stop.1
    have zero : s.totErrors (channel j 0) = 0 := by
      have aborted := kept.outcome.aborted stop.1 stop.2 some'
      rw [aborted.errors]
      exact if_neg fun same => other (Fin.ext ((channelChip j 0).symm.trans same))
    exact never _ _ _ ((posted j 0).1 zero).1

end PennDaq.TTotPosts
