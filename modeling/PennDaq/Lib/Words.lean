import Mathlib.Data.List.TakeWhile

/-! Texts that are split at separators: lines, words, and the pieces that `strtok`
gives. -/
namespace Lib.Words

variable {α : Type}

/- What stands between the separators, as `%s` of `fscanf` gives it in turn. -/
def words (isSpace : α → Bool) (s : List α) : List (List α) :=
  (s.splitOnP isSpace).filter fun word => !word.isEmpty

def strtok (isDelim : α → Bool) (s : List α) : Option (List α × List α) :=
  match s.dropWhile isDelim with
  | [] => none
  | c::later => some ((c::later).takeWhile fun c => !isDelim c,((c::later).dropWhile fun c => !isDelim c).drop 1)

theorem splitClean {p : α → Bool} {s piece : List α} (mem : piece ∈ s.splitOnP p) : ∀ x ∈ piece, p x = false := by
  induction s generalizing piece with
  | nil =>
    rw [List.splitOnP_nil, List.mem_singleton] at mem
    subst mem
    exact fun x inside => nomatch inside
  | cons x s ih =>
    obtain ⟨first, rest, split⟩ := List.exists_cons_of_ne_nil (List.splitOnP_ne_nil p s)
    rw [List.splitOnP_cons_eq_if_modifyHead, split] at mem
    rw [split] at ih
    cases cut : p x with
    | true =>
      rw [if_pos cut] at mem
      rcases List.mem_cons.mp mem with rfl | mem
      · exact fun x inside => nomatch inside
      · exact ih mem
    | false =>
      rw [if_neg (by rw [cut]; decide), List.modifyHead_cons] at mem
      rcases List.mem_cons.mp mem with rfl | mem
      · exact List.forall_mem_cons.mpr ⟨cut, ih List.mem_cons_self⟩
      · exact ih (List.mem_cons_of_mem _ mem)

theorem wordsClean {p : α → Bool} {s word : List α} (mem : word ∈ words p s) : ∀ x ∈ word, p x = false :=
  splitClean (List.mem_filter.mp mem).1

theorem strtokWhole {isDelim : α → Bool} {s : List α} (clean : ∀ x ∈ s, isDelim x = false) (some' : s ≠ []) :
    strtok isDelim s = some (s,[]) := by
  obtain ⟨c, later, rfl⟩ := List.exists_cons_of_ne_nil some'
  have whole : (c::later).takeWhile (fun c => !isDelim c) = c::later :=
    List.takeWhile_eq_self_iff.mpr fun x mem => by rw [clean x mem]; rfl
  have nothing : (c::later).dropWhile (fun c => !isDelim c) = [] :=
    List.dropWhile_eq_nil_iff.mpr fun x mem => by rw [clean x mem]; rfl
  have start : (c::later).dropWhile isDelim = c::later :=
    List.dropWhile_cons_of_neg (by rw [clean c List.mem_cons_self]; decide)
  rw [strtok, start]
  simp only [whole, nothing, List.drop_nil]

theorem strtokHead {isDelim : α → Bool} {c : α} (other : isDelim c = false) (later : List α) :
    strtok isDelim (c::later) = some ((c::later).takeWhile (fun c => !isDelim c),
      ((c::later).dropWhile fun c => !isDelim c).drop 1) := by
  rw [strtok, List.dropWhile_cons_of_neg (by rw [other]; decide)]

theorem strtokParts {isDelim : α → Bool} {s piece rest : List α} (ok : strtok isDelim s = some (piece,rest)) :
    piece ≠ [] ∧ (∀ x ∈ piece, isDelim x = false) ∧ ∀ x ∈ rest, x ∈ s := by
  unfold strtok at ok
  split at ok
  · cases ok
  · rename_i c later start
    cases ok
    have first : isDelim c = false := by
      have head := List.head_dropWhile_not isDelim (l := s) (by rw [start]; exact List.cons_ne_nil _ _)
      simpa only [start, List.head_cons] using head
    have inside (x : α) (mem : x ∈ c::later) : x ∈ s := (List.dropWhile_sublist isDelim).mem (start ▸ mem)
    refine ⟨?_, ?_, ?_⟩
    · rw [List.takeWhile_cons_of_pos (by rw [first]; rfl)]
      exact List.cons_ne_nil _ _
    · intro x mem
      simpa using List.mem_takeWhile_imp mem
    · intro x mem
      exact inside x ((List.dropWhile_sublist _).mem (List.mem_of_mem_drop mem))

end Lib.Words
