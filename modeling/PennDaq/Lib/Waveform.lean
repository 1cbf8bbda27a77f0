import Mathlib.Data.BitVec

/-! What a receiver samples of words that are driven one after another: the data bit at
the rising edges of the clock bit. -/
namespace Lib.Waveform

variable {w : Nat}

/- `level` is the clock before the first word. -/
def edges (clock : Nat) (level : Bool) : List (BitVec w) → List (BitVec w)
  | [] => []
  | word::later =>
    if word.getLsbD clock && !level then word::edges clock (word.getLsbD clock) later
    else edges clock (word.getLsbD clock) later

def sampled (clock data : Nat) (level : Bool) (words : List (BitVec w)) : List Bool :=
  (edges clock level words).map fun word => word.getLsbD data

def levelAfter (clock : Nat) (level : Bool) (words : List (BitVec w)) : Bool :=
  words.foldl (fun _ word => word.getLsbD clock) level

variable {clock : Nat}

theorem edgesAppend (level : Bool) (first later : List (BitVec w)) :
    edges clock level (first ++ later) =
      edges clock level first ++ edges clock (levelAfter clock level first) later := by
  induction first generalizing level with
  | nil => rfl
  | cons word rest ih =>
    rw [List.cons_append, edges, edges, ih (word.getLsbD clock)]
    split
    · rfl
    · rfl

theorem sampledAppend (data : Nat) (level : Bool) (first later : List (BitVec w)) :
    sampled clock data level (first ++ later) =
      sampled clock data level first ++ sampled clock data (levelAfter clock level first) later := by
  rw [sampled, edgesAppend, List.map_append]
  rfl

theorem sampledLow (data : Nat) (level : Bool) {low : BitVec w} (down : low.getLsbD clock = false)
    (later : List (BitVec w)) : sampled clock data level (low::later) = sampled clock data false later := by
  simp only [sampled, edges, down, Bool.false_and, Bool.false_eq_true, if_false]

theorem sampledRise (data : Nat) {high : BitVec w} (up : high.getLsbD clock = true) (later : List (BitVec w)) :
    sampled clock data false (high::later) = high.getLsbD data::sampled clock data true later := by
  simp only [sampled, edges, up, Bool.not_false, Bool.and_true, if_true, List.map_cons]

theorem sampledPulse (data : Nat) (level : Bool) {low high : BitVec w} (down : low.getLsbD clock = false)
    (up : high.getLsbD clock = true) (later : List (BitVec w)) :
    sampled clock data level (low::high::later) = high.getLsbD data::sampled clock data true later := by
  rw [sampledLow data level down, sampledRise data up]

theorem edgesDriven (level : Bool) {words : List (BitVec w)} {word : BitVec w}
    (mem : word ∈ edges clock level words) : word ∈ words ∧ word.getLsbD clock = true := by
  induction words generalizing level with
  | nil => cases mem
  | cons first later ih =>
    rw [edges] at mem
    split at mem
    · rename_i rises
      rcases List.mem_cons.mp mem with rfl | mem
      · exact ⟨List.mem_cons_self, (Bool.and_eq_true_iff.mp rises).1⟩
      · obtain ⟨inside, high⟩ := ih _ mem
        exact ⟨List.mem_cons_of_mem first inside, high⟩
    · obtain ⟨inside, high⟩ := ih _ mem
      exact ⟨List.mem_cons_of_mem first inside, high⟩

end Lib.Waveform
